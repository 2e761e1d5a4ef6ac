import ProofSheet.Proofs.Reading.Formula
import ProofSheet.Proofs.Text.Line

/-!
Statements of worksheets: which drafts a text can hold, and that each of them is read from the
line that it is written on.

* `StepDraft.Legible`, `StepDraft.text`: the drafts that a text can hold, by their tokens, and how
  they are written;
* `legible_of_statement`: every draft that is read is legible;
* `statement_text`: a legible draft is read from its text, unless the text ends in a carriage
  return;
* `not_breaksInto_of_statement`: a text that the same fields are read from does not end in one;
* `lineFeed_not_mem_text`: a legible draft is written on one line.

A statement is a comment if it can be one, else a hypothesis step if it can be one, so a derivation
step is legible only if its number does not make it look like either.
-/

namespace ProofSheet

open Reading

/-! ### Legible drafts -/

namespace HypothesisDraft

/-- How a hypothesis draft is written. -/
def text (draft : HypothesisDraft) : String :=
  statementText (Header.ofHypothesis draft.step draft.ref) draft.formula

/-- A text can hold the hypothesis draft. -/
structure Legible (draft : HypothesisDraft) : Prop where
  step : IsNumber draft.step
  ref : IsWord? draft.ref
  formula : ∀ f ∈ draft.formula, IsFormula f
  tree : draft.tree = none

end HypothesisDraft

namespace DerivationDraft

/-- How a derivation draft is written. -/
def text (draft : DerivationDraft) : String :=
  statementText (Header.ofDerivation draft.step draft.hyps draft.ref) draft.formula

/-- A text can hold the derivation draft. -/
structure Legible (draft : DerivationDraft) : Prop where
  step : IsNumber draft.step
  hyps : ∀ n ∈ draft.hyps, IsNumber n
  ref : IsWord? draft.ref
  formula : ∀ f ∈ draft.formula, IsFormula f
  /-- Its number does not begin a comment. -/
  not_comment : startsWith '*' draft.step.toList = false
  /-- Its header is not the header of a hypothesis step. -/
  not_hypothesis : draft.hyps = [] → startsWith 'h' draft.step.toList = true → draft.step = "h"

end DerivationDraft

namespace StepDraft

/-- How a draft is written. -/
def text : StepDraft → String
  | hypothesis draft => draft.text
  | derivation draft => draft.text

/-- A text can hold the draft. -/
def Legible : StepDraft → Prop
  | hypothesis draft => draft.Legible
  | derivation draft => draft.Legible

/-- The draft at another place. -/
def placed (caret : Caret) : StepDraft → StepDraft
  | hypothesis draft => hypothesis { draft with caret }
  | derivation draft => derivation { draft with caret }

end StepDraft

namespace Reading

/-! ### Telling the kinds of statement apart -/

lemma comment_eq_none_iff {s : List Char} : comment s = none ↔ startsWith '*' s = false := by
  cases s with
  | nil => exact ⟨fun _ => rfl, fun _ => rfl⟩
  | cons c s =>
      by_cases hc : c = '*'
      · subst hc
        exact ⟨fun h => (by cases h), fun h => (by cases h)⟩
      · have hexpect : expect "*" (c :: s) = none := by
          refine Option.eq_none_iff_forall_ne_some.2 fun rest h => hc ?_
          exact (List.cons.inj (expect_eq_some_iff.1 h)).1
        simp [comment, hexpect, startsWith, hc]

/-- A statement is a comment if it can be one, else a hypothesis step if it can be one, and else
a derivation step. -/
lemma statement_cases {size : Nat} {s rest : List Char} {read : Option StepDraft}
    (h : statement size s = some (read, rest)) :
    (comment s = some rest ∧ read = none) ∨
      (comment s = none ∧ ∃ draft, hypothesisStatement size s = some (draft, rest) ∧
        read = some (.hypothesis draft)) ∨
      (comment s = none ∧ hypothesisStatement size s = none ∧
        ∃ draft, derivationStatement size s = some (draft, rest) ∧
          read = some (.derivation draft)) := by
  rw [statement] at h
  cases hcomment : comment s with
  | some t =>
      rw [hcomment] at h
      cases h
      exact .inl ⟨rfl, rfl⟩
  | none =>
      rw [hcomment] at h
      cases hhyp : hypothesisStatement size s with
      | some found =>
          rw [hhyp] at h
          cases h
          exact .inr (.inl ⟨rfl, _, rfl, rfl⟩)
      | none =>
          rw [hhyp] at h
          obtain ⟨found, hfound, h⟩ := Option.map_eq_some_iff.1 h
          cases h
          exact .inr (.inr ⟨rfl, rfl, _, hfound, rfl⟩)

lemma startsWith_append {c : Char} {v w : List Char} (hv : v ≠ []) :
    startsWith c (v ++ w) = startsWith c v := by
  obtain ⟨d, more, rfl⟩ := List.exists_cons_of_ne_nil hv
  rfl

/-- A text has one first place for a character. -/
lemma append_cons_inj {c : Char} {u u' v v' : List Char} (hu : c ∉ u) (hu' : c ∉ u')
    (h : u ++ c :: v = u' ++ c :: v') : u = u' ∧ v = v' := by
  induction u generalizing u' with
  | nil =>
      cases u' with
      | nil => exact ⟨rfl, (List.cons.inj h).2⟩
      | cons d u' => exact absurd ((List.cons.inj h).1 ▸ List.mem_cons_self) hu'
  | cons d u ih =>
      cases u' with
      | nil => exact absurd ((List.cons.inj h).1 ▸ List.mem_cons_self) hu
      | cons d' u' =>
          obtain ⟨rfl, htail⟩ := List.cons.inj h
          obtain ⟨rfl, hv⟩ := ih (fun hc => hu (List.mem_cons_of_mem d hc))
            (fun hc => hu' (List.mem_cons_of_mem d hc)) htail
          exact ⟨rfl, hv⟩

/-- The header of a legible derivation step does not begin like one of a hypothesis step. -/
lemma hypothesisHeader_derivation {draft : DerivationDraft} (hd : draft.Legible)
    (rest : List Char) :
    hypothesisHeader ((Header.ofDerivation draft.step draft.hyps draft.ref).toList ++ rest) =
      none := by
  cases hread : hypothesisHeader
    ((Header.ofDerivation draft.step draft.hyps draft.ref).toList ++ rest) with
  | none => rfl
  | some read =>
      obtain ⟨⟨number, ref⟩, t⟩ := read
      obtain ⟨heq, hnumber, -⟩ := hypothesisHeader_eq_some_iff.1 hread
      obtain ⟨c, more, hc⟩ := hd.step.1.exists_cons
      have hcolon : ':' ∉ more := fun h => hd.step.2.1 (hc ▸ List.mem_cons_of_mem c h)
      rw [toList_ofDerivation, toList_ofHypothesis, hc] at heq
      simp only [List.cons_append, List.append_assoc, List.cons.injEq] at heq
      obtain ⟨rfl, heq⟩ := heq
      -- both numbers end at the first colon, and the second colon follows at once
      obtain ⟨hmore, heq⟩ := append_cons_inj hnumber.2.1 hcolon heq.symm
      have hhyps : draft.hyps = [] := by
        cases hh : draft.hyps with
        | nil => rfl
        | cons first hyps =>
            have hfirst : IsNumber first := hd.hyps first (hh ▸ by simp)
            obtain ⟨d, _, hd⟩ := hfirst.1.exists_cons
            rw [hh, toList_intercalate_cons, hd] at heq
            have hcolon := (List.cons.inj heq).1
            exact absurd (hd ▸ hcolon ▸ by simp) hfirst.2.1
      have hstep := hd.not_hypothesis hhyps (by rw [hc]; rfl)
      rw [hstep] at hc
      rw [← (List.cons.inj hc).2] at hmore
      exact absurd hmore hnumber.1.toList_ne_nil

/-! ### Every draft that is read is legible -/

lemma isSymbol_of_nextSymbol {s rest : List Char} {x : String}
    (h : nextSymbol s = some (x, rest)) : IsSymbol x := by
  obtain ⟨t, -, h⟩ := Option.bind_eq_some_iff.1 h
  exact (symbol_eq_some_iff.1 h).2.1

lemma isFormula_of_optional (s : List Char) :
    ∀ f ∈ (optional nextFormula s).1, IsFormula f := by
  rw [optional]
  cases h : nextFormula s with
  | none => simp
  | some read =>
      obtain ⟨hne, hmany⟩ := nextFormula_eq_some_iff.1 h
      rintro f ⟨⟩
      refine ⟨hne, ?_⟩
      have hall : ∀ x ∈ (many nextSymbol advances_nextSymbol s).1, IsSymbol x :=
        forall_mem_many (fun s x rest h => isSymbol_of_nextSymbol h) s
      rw [hmany] at hall
      exact hall

lemma legible_of_hypothesisStatement {size : Nat} {s rest : List Char} {draft : HypothesisDraft}
    (h : hypothesisStatement size s = some (draft, rest)) : draft.Legible := by
  obtain ⟨⟨⟨step, ref⟩, t⟩, hheader, h⟩ := Option.bind_eq_some_iff.1 h
  obtain ⟨-, hstep, href, -⟩ := hypothesisHeader_eq_some_iff.1 hheader
  cases h
  exact ⟨hstep, href, isFormula_of_optional t, rfl⟩

lemma legible_of_derivationStatement {size : Nat} {s rest : List Char} {draft : DerivationDraft}
    (h : derivationStatement size s = some (draft, rest)) (hcomment : comment s = none)
    (hhyp : hypothesisStatement size s = none) : draft.Legible := by
  obtain ⟨⟨⟨step, hyps, ref⟩, t⟩, hheader, h⟩ := Option.bind_eq_some_iff.1 h
  obtain ⟨hs, hstep, hhyps, href, hend⟩ := derivationHeader_eq_some_iff.1 hheader
  cases h
  refine ⟨hstep, hhyps, href, isFormula_of_optional t, ?_, fun hnil hh => ?_⟩
  · rw [comment_eq_none_iff, hs, toList_ofDerivation, List.append_assoc,
      startsWith_append hstep.1.toList_ne_nil] at hcomment
    exact hcomment
  · obtain ⟨c, more, hc⟩ := hstep.1.exists_cons
    rw [hc] at hh
    obtain rfl : c = 'h' := by simpa [startsWith] using hh
    by_contra hne
    -- then what is behind the letter is a number, and the text has the header of a hypothesis
    have hmore : more ≠ [] := fun hm => hne (String.toList_inj.1 (by rw [hc, hm]; rfl))
    have hnumber : IsNumber (String.ofList more) := hstep.tail hc hmore
    have htext : Header.ofDerivation step hyps ref =
        Header.ofHypothesis (String.ofList more) ref := by
      rw [← String.toList_inj, toList_ofDerivation, toList_ofHypothesis, hc,
        show hyps = [] from hnil, String.toList_ofList]
      simp
    rw [htext] at hs hend
    have hread := hypothesisHeader_eq_some_iff.2 ⟨hs, hnumber, href, hend⟩
    simp [hypothesisStatement, hread] at hhyp

/-- **What is read can be written**: every draft that is read is legible. -/
lemma legible_of_statement {size : Nat} {s rest : List Char} {draft : StepDraft}
    (h : statement size s = some (some draft, rest)) : draft.Legible := by
  obtain ⟨-, heq⟩ | ⟨-, read, hread, heq⟩ | ⟨hcomment, hhyp, read, hread, heq⟩ :=
    statement_cases h
  · cases heq
  · cases heq
    exact legible_of_hypothesisStatement hread
  · cases heq
    exact legible_of_derivationStatement hread hcomment hhyp

/-! ### A legible draft is read from its line -/

/-- Whether a line ends in a carriage return is settled by its symbols, or by its header if it
has none. -/
lemma breaksInto_line {header rest : List Char} {xs : List String} :
    ¬ BreaksInto (header ++ spaced xs) ('\n' :: rest) ↔
      ¬ BreaksInto header (spaced xs ++ '\n' :: rest) ∧
        ¬ BreaksInto (spaced xs) ('\n' :: rest) := by
  cases xs with
  | nil => simp [spaced, not_breaksInto_nil]
  | cons x xs =>
      rw [breaksInto_append (by simp [spaced])]
      exact (and_iff_right (not_breaksInto_of_head (by decide))).symm

lemma isSymbol_of_mem_symbolsOf {formula : Option Formula} (h : ∀ f ∈ formula, IsFormula f) :
    ∀ x ∈ symbolsOf formula, IsSymbol x := by
  cases formula with
  | none => simp [symbolsOf]
  | some f => exact (h f rfl).2

lemma startsWith_text {header : String} {formula : Option Formula} {c : Char}
    (hheader : header.toList ≠ []) (rest : List Char) :
    startsWith c ((statementText header formula).toList ++ rest) = startsWith c header.toList := by
  rw [toList_statementText, List.append_assoc, startsWith_append hheader]

lemma comment_text {draft : StepDraft} (hd : draft.Legible) (rest : List Char) :
    comment (draft.text.toList ++ rest) = none := by
  rw [comment_eq_none_iff]
  cases draft with
  | hypothesis draft =>
      refine (startsWith_text ?_ rest).trans ?_ <;> simp [toList_ofHypothesis, startsWith]
  | derivation draft =>
      refine (startsWith_text ?_ rest).trans ?_
      · simp [toList_ofDerivation]
      · rw [toList_ofDerivation, startsWith_append hd.step.1.toList_ne_nil]
        exact hd.not_comment

/-- A derivation step that is written is not read as a hypothesis step. -/
lemma hypothesisStatement_derivation {draft : DerivationDraft} (hd : draft.Legible) (size : Nat)
    (rest : List Char) : hypothesisStatement size (draft.text.toList ++ rest) = none := by
  rw [DerivationDraft.text, toList_statementText, List.append_assoc]
  simp [hypothesisStatement, hypothesisHeader_derivation hd]

section Line

variable {rest : List Char} (hrest : atSpace rest = false) (size : Nat)
include hrest

/-- A formula is read from the line behind its header. -/
lemma optional_nextFormula_line {formula : Option Formula} (hf : ∀ f ∈ formula, IsFormula f)
    (hend : ¬ BreaksInto (spaced (symbolsOf formula)) ('\n' :: rest)) :
    optional nextFormula (spaced (symbolsOf formula) ++ '\n' :: rest) =
      (formula, '\n' :: rest) :=
  (optional_nextFormula_eq_iff hf).2
    (many_nextSymbol_line hrest (isSymbol_of_mem_symbolsOf hf) hend)

/-- A formula that is read back did not end in a carriage return. -/
lemma not_breaksInto_of_optional {formula : Option Formula} (hf : ∀ f ∈ formula, IsFormula f)
    (h : (optional nextFormula (spaced (symbolsOf formula) ++ '\n' :: rest)).1 = formula) :
    ¬ BreaksInto (spaced (symbolsOf formula)) ('\n' :: rest) := by
  refine not_breaksInto_of_many hrest (isSymbol_of_mem_symbolsOf hf) ?_
  rw [(optional_nextFormula_eq_iff hf).1 (Prod.ext h rfl)]

/-- **A legible draft is read from its text** at the end of a line, if the text does not end in a
carriage return. -/
lemma statement_text {draft : StepDraft} (hd : draft.Legible)
    (hend : ¬ BreaksInto draft.text.toList ('\n' :: rest)) :
    statement size (draft.text.toList ++ '\n' :: rest) =
      some (some (draft.placed
        (caretOf size (draft.text.toList ++ '\n' :: rest) ('\n' :: rest))), '\n' :: rest) := by
  rw [statement, comment_text hd]
  cases draft with
  | hypothesis draft =>
      obtain ⟨hline, -⟩ := spaced_line hrest (symbolsOf draft.formula)
      rw [StepDraft.text, HypothesisDraft.text, toList_statementText] at hend ⊢
      obtain ⟨hheader, hsymbols⟩ := breaksInto_line.1 hend
      have hfields := hypothesisHeader_eq_some_iff.2 ⟨rfl, hd.step, hd.ref, hheader, .inr hline⟩
      have hformula := optional_nextFormula_line hrest hd.formula hsymbols
      rw [List.append_assoc]
      simp only [hypothesisStatement, hfields, bind, Option.bind_some, hformula, pure,
        StepDraft.placed, ← hd.tree]
  | derivation draft =>
      rw [StepDraft.text, hypothesisStatement_derivation hd]
      obtain ⟨hline, -⟩ := spaced_line hrest (symbolsOf draft.formula)
      rw [StepDraft.text] at hend
      rw [DerivationDraft.text, toList_statementText] at hend ⊢
      obtain ⟨hheader, hsymbols⟩ := breaksInto_line.1 hend
      have hfields := derivationHeader_eq_some_iff.2
        ⟨rfl, hd.step, hd.hyps, hd.ref, hheader, .inr hline⟩
      have hformula := optional_nextFormula_line hrest hd.formula hsymbols
      rw [List.append_assoc]
      simp only [derivationStatement, hfields, bind, Option.bind_some, hformula, pure,
        StepDraft.placed, Option.map_some]

/-! ### Lines that are read back -/

/-- In front of a formula the header of a hypothesis step is read as it is written. -/
lemma fields_of_hypothesisStatement {draft read : HypothesisDraft} {t : List Char}
    (hd : draft.Legible) (hf : draft.formula ≠ none)
    (h : hypothesisStatement size (draft.text.toList ++ '\n' :: rest) = some (read, t)) :
    read.step = draft.step ∧ read.ref = draft.ref := by
  obtain ⟨hline, -⟩ := spaced_line hrest (symbolsOf draft.formula)
  have hne : ¬ BreaksInto (Header.ofHypothesis draft.step draft.ref).toList
      (spaced (symbolsOf draft.formula) ++ '\n' :: rest) := by
    obtain ⟨f, hsome⟩ := Option.ne_none_iff_exists'.1 hf
    obtain ⟨x, xs, hx⟩ := List.exists_cons_of_ne_nil (hd.formula f hsome).1
    rw [hsome, symbolsOf, Option.elim_some, hx]
    exact not_breaksInto_of_head (by decide)
  have hfields := hypothesisHeader_eq_some_iff.2 ⟨rfl, hd.step, hd.ref, hne, .inr hline⟩
  rw [HypothesisDraft.text, toList_statementText, List.append_assoc, hypothesisStatement, hfields]
    at h
  cases h
  exact ⟨rfl, rfl⟩

lemma not_breaksInto_of_hypothesisStatement {draft read : HypothesisDraft} {t : List Char}
    (hd : draft.Legible)
    (h : hypothesisStatement size (draft.text.toList ++ '\n' :: rest) = some (read, t))
    (hstep : read.step = draft.step) (href : read.ref = draft.ref)
    (hformula : read.formula = draft.formula) : ¬ BreaksInto draft.text.toList ('\n' :: rest) := by
  obtain ⟨⟨⟨step, ref⟩, u⟩, hheader, hread⟩ := Option.bind_eq_some_iff.1 h
  cases hread
  obtain rfl : step = draft.step := hstep
  obtain rfl : ref = draft.ref := href
  rw [HypothesisDraft.text, toList_statementText, List.append_assoc] at hheader
  obtain ⟨hu, -, -, hbreaks, -⟩ := hypothesisHeader_eq_some_iff.1 hheader
  rw [← List.append_cancel_left hu] at hformula hbreaks
  rw [HypothesisDraft.text, toList_statementText]
  exact breaksInto_line.2 ⟨hbreaks, not_breaksInto_of_optional hrest hd.formula hformula⟩

lemma not_breaksInto_of_derivationStatement {draft read : DerivationDraft} {t : List Char}
    (hd : draft.Legible)
    (h : derivationStatement size (draft.text.toList ++ '\n' :: rest) = some (read, t))
    (hstep : read.step = draft.step) (hhyps : read.hyps = draft.hyps)
    (href : read.ref = draft.ref) (hformula : read.formula = draft.formula) :
    ¬ BreaksInto draft.text.toList ('\n' :: rest) := by
  obtain ⟨⟨⟨step, hyps, ref⟩, u⟩, hheader, hread⟩ := Option.bind_eq_some_iff.1 h
  cases hread
  obtain rfl : step = draft.step := hstep
  obtain rfl : hyps = draft.hyps := hhyps
  obtain rfl : ref = draft.ref := href
  rw [DerivationDraft.text, toList_statementText, List.append_assoc] at hheader
  obtain ⟨hu, -, -, -, hbreaks, -⟩ := derivationHeader_eq_some_iff.1 hheader
  rw [← List.append_cancel_left hu] at hformula hbreaks
  rw [DerivationDraft.text, toList_statementText]
  exact breaksInto_line.2 ⟨hbreaks, not_breaksInto_of_optional hrest hd.formula hformula⟩

/-- **A line that is read back did not end in a carriage return.** -/
lemma not_breaksInto_of_statement {draft read : StepDraft} {t : List Char} (hd : draft.Legible)
    (h : statement size (draft.text.toList ++ '\n' :: rest) = some (some read, t))
    (hsame : read.placed {} = draft.placed {}) :
    ¬ BreaksInto draft.text.toList ('\n' :: rest) := by
  obtain ⟨-, heq⟩ | ⟨-, found, hfound, heq⟩ | ⟨-, -, found, hfound, heq⟩ := statement_cases h
  · cases heq
  · cases heq
    cases draft with
    | derivation draft => cases hsame
    | hypothesis draft =>
        have hfields := StepDraft.hypothesis.inj hsame
        exact not_breaksInto_of_hypothesisStatement hrest size hd hfound
          (congrArg (·.step) hfields) (congrArg (·.ref) hfields) (congrArg (·.formula) hfields)
  · cases heq
    cases draft with
    | hypothesis draft => cases hsame
    | derivation draft =>
        have hfields := StepDraft.derivation.inj hsame
        exact not_breaksInto_of_derivationStatement hrest size hd hfound
          (congrArg (·.step) hfields) (congrArg (·.hyps) hfields) (congrArg (·.ref) hfields)
          (congrArg (·.formula) hfields)

end Line

/-! ### A legible draft is written on one line -/

lemma lineFeed_not_mem {w : String} (h : Blankless w.toList) : '\n' ∉ w.toList :=
  fun hmem => (h _ hmem).2 rfl

lemma lineFeed_not_mem_getD {w : Option String} (h : IsWord? w) : '\n' ∉ (w.getD "").toList := by
  cases w with
  | none => simp
  | some w => exact lineFeed_not_mem (h w rfl).2

lemma lineFeed_not_mem_spaced {formula : Option Formula} (h : ∀ f ∈ formula, IsFormula f) :
    '\n' ∉ spaced (symbolsOf formula) := by
  intro hmem
  obtain ⟨x, hx, hmem⟩ := List.mem_flatMap.1 hmem
  rcases List.mem_cons.1 hmem with heq | hmem
  · cases heq
  · exact lineFeed_not_mem (isSymbol_of_mem_symbolsOf h x hx).1.2 hmem

/-- There is no line feed in the text of a legible draft. -/
lemma lineFeed_not_mem_text {draft : StepDraft} (h : draft.Legible) :
    '\n' ∉ draft.text.toList := by
  cases draft with
  | hypothesis draft =>
      rw [StepDraft.text, HypothesisDraft.text, toList_statementText, toList_ofHypothesis]
      simp only [List.mem_append, List.mem_cons, not_or]
      exact ⟨⟨by decide, lineFeed_not_mem h.step.1.2, by decide, by decide,
        lineFeed_not_mem_getD h.ref⟩, lineFeed_not_mem_spaced h.formula⟩
  | derivation draft =>
      have hhyps : '\n' ∉ (",".intercalate draft.hyps).toList :=
        Text.lineFeed_not_mem_intercalate (by decide) fun n hn => lineFeed_not_mem (h.hyps n hn).1.2
      rw [StepDraft.text, DerivationDraft.text, toList_statementText, toList_ofDerivation]
      simp only [List.mem_append, List.mem_cons, not_or]
      exact ⟨⟨lineFeed_not_mem h.step.1.2, by decide, hhyps, by decide,
        lineFeed_not_mem_getD h.ref⟩, lineFeed_not_mem_spaced h.formula⟩

end Reading

end ProofSheet
