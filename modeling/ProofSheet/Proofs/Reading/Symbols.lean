import Mathlib.Data.List.Chain
import ProofSheet.Proofs.Reading.Places
import ProofSheet.Proofs.Reading.TypedNames

/-!
The math symbols in texts. The grammar looks at the first character of a symbol only, so that a
dollar sign may stand anywhere behind it.

* `WorksheetDraft.mathSymbols`, `Command.mathSymbols`: the symbols of what is read;
* `mathSymbols_of_draft`, `mathSymbols_of_command`: the class of symbols that each reader takes, and
  that each of them stands in its text;
* `exists_draft_iff`, `exists_command_iff`: **which words are math symbols** of a worksheet, and of
  a command;
* `DollarsLead`: every dollar sign begins a word, and then no symbol holds one
  (`not_mem_of_dollarsLead`).
-/

namespace ProofSheet

open Reading

/-- The math symbols of the formulas in a worksheet. -/
def WorksheetDraft.mathSymbols (draft : WorksheetDraft) : List String :=
  draft.steps.flatMap StepDraft.symbols

/-- The math symbols that a command declares, or those of its formula. -/
def DatabaseCommand.mathSymbols : DatabaseCommand → List String
  | symbols names => names
  | logHyp _ formula => formula.symbols
  | axiomatic _ formula => formula.symbols
  | provable _ _ formula => formula.symbols

/-- The math symbols in a command; only a command of the database has any. -/
def Command.mathSymbols : Command → List String
  | database command => command.mathSymbols
  | load _ => []
  | sheet _ => []

namespace Reading

variable {α : Type} {s t rest : List Char} {x y : String} {xs : List String} {text : String}
  {draft : WorksheetDraft} {formula : Formula} {command : Command}

/-! ### The symbols of a worksheet -/

lemma infix_of_symbolsText (h : SymbolsText xs s) : ∀ x ∈ xs, x.toList <:+: s := by
  induction h with
  | nil => exact List.forall_mem_nil _
  | @cons x xs g s _ _ ih =>
      refine List.forall_mem_cons.2 ⟨⟨g, s, by rw [List.append_assoc]⟩, fun y hy => ?_⟩
      rw [← List.append_assoc]
      exact (ih y hy).trans (List.suffix_append _ s).isInfix

/-- Every symbol that is read from a worksheet is one, and stands in its text. -/
lemma mathSymbols_of_draft (h : WorksheetDraft.ofText? text = some draft) :
    ∀ x ∈ draft.mathSymbols, IsSymbol x ∧ x.toList <:+: text.toList := by
  intro x hx
  obtain ⟨d, hd, hx⟩ := List.mem_flatMap.1 hx
  have hlegible := (legible_of_ofText? h).steps d hd
  constructor
  · cases d with
    | hypothesis draft => exact isSymbol_of_mem_symbolsOf hlegible.formula x hx
    | derivation draft => exact isSymbol_of_mem_symbolsOf hlegible.formula x hx
  · -- the statement stands in the text, and the symbol in the statement
    obtain ⟨places, hplaced, -⟩ := exists_placedSheet h
    have hin := hplaced.isIn
    obtain ⟨_, _, _, _, _, _, _, _, -, -, -, -, -, hbody, -⟩ := hplaced
    obtain ⟨before, after, hsteps⟩ := List.append_of_mem hd
    obtain ⟨ps, place, qs, rfl, -, symbols, hsymbols, hown⟩ := hbody.exists_place hsteps
    obtain ⟨behind, htext⟩ := hin place (List.mem_append_right _ List.mem_cons_self)
    rw [htext, hown]
    refine (infix_of_symbolsText hsymbols x hx).trans ?_
    exact ⟨place.before ++ d.header.toList, behind, by simp only [List.append_assoc]⟩

/-! ### The symbols of a command -/

lemma isMathSymbol_iff : IsMathSymbol x ↔ IsSymbol x ∧ ';' ∉ x.toList := by
  have hpasses : Passes endsMathSymbol x.toList [] ↔ Blankless x.toList ∧ ';' ∉ x.toList :=
    passes_or.trans (and_congr passes_atBlank_nil_iff passes_startsWith_iff)
  rw [IsMathSymbol, IsToken, hpasses, IsSymbol, IsWord]
  tauto

lemma isMathSymbol_of_legible (h : command.Legible) :
    ∀ x ∈ command.mathSymbols, IsMathSymbol x := by
  match command, h with
  | .database (.symbols _), h => exact h.2
  | .database (.logHyp _ _), h => exact h.2.2
  | .database (.axiomatic _ _), h => exact h.2.2
  | .database (.provable _ _ _), h => exact h.2.2.2
  | .load _, _ => exact List.forall_mem_nil _
  | .sheet _, _ => exact List.forall_mem_nil _

lemma suffix_of_expect {word : String} (h : expect word s = some rest) : rest <:+ s :=
  ⟨word.toList, (expect_eq_some_iff.1 h).symm⟩

lemma suffix_skipBlanks (s : List Char) : skipBlanks s <:+ s := by
  obtain ⟨blanks, hs, -⟩ := exists_append_skipBlanks s
  exact ⟨blanks, hs.symm⟩

lemma suffix_of_blanks? (h : blanks? s = some rest) : rest <:+ s := by
  rw [blanks?] at h
  split at h
  · cases h
    exact suffix_skipBlanks s
  · cases h

/-- What the reader takes stands in the text, and what it hands on is the end of the text. -/
def Lifts (read : Reader String) : Prop :=
  ∀ s x rest, read s = some (x, rest) → x.toList <:+: s ∧ rest <:+ s

lemma lifts_token (stop : List Char → Bool) : Lifts (token stop) := by
  intro s x rest h
  obtain ⟨-, rfl, -⟩ := token_eq_some_iff.1 h
  exact ⟨(List.prefix_append _ _).isInfix, List.suffix_append _ _⟩

lemma lifts_mathSymbol : Lifts mathSymbol := by
  intro s x rest h
  rw [mathSymbol] at h
  split at h
  · cases h
  · exact lifts_token endsMathSymbol s x rest h

namespace Lifts

variable {read : Reader String}

lemma next (h : Lifts read) : Lifts fun s => (blanks? s).bind read := by
  intro s x rest hread
  obtain ⟨t, ht, hread⟩ := Option.bind_eq_some_iff.1 hread
  obtain ⟨hx, hrest⟩ := h t x rest hread
  have hsuffix := suffix_of_blanks? ht
  exact ⟨hx.trans hsuffix.isInfix, hrest.trans hsuffix⟩

lemma many (h : Lifts read) (advances : Advances read) (s : List Char) :
    (∀ x ∈ (many read advances s).1, x.toList <:+: s) ∧ (many read advances s).2 <:+ s := by
  fun_induction Reading.many read advances s with
  | case1 s _ => exact ⟨List.forall_mem_nil _, List.suffix_rfl⟩
  | case2 s x rest taken more final heq ih =>
      rw [heq] at ih
      obtain ⟨hx, hrest⟩ := h s x rest taken
      refine ⟨List.forall_mem_cons.2 ⟨hx, fun y hy => ?_⟩, ih.2.trans hrest⟩
      exact (ih.1 y hy).trans hrest.isInfix

end Lifts

lemma lifts_nextMathSymbol : Lifts nextMathSymbol :=
  lifts_mathSymbol.next

lemma lifts_nextWord : Lifts nextWord :=
  (lifts_token endsWord).next

/-- A symbol and the ones behind it. -/
lemma infix_of_many_nextMathSymbol (hx : x.toList <:+: s) (ht : t <:+ s) :
    ∀ y ∈ x :: (many nextMathSymbol advances_nextMathSymbol t).1, y.toList <:+: s := by
  refine List.forall_mem_cons.2 ⟨hx, fun y hy => ?_⟩
  exact ((lifts_nextMathSymbol.many advances_nextMathSymbol t).1 y hy).trans ht.isInfix

lemma infix_of_commandFormula (h : commandFormula s = some (formula, rest)) :
    ∀ x ∈ formula.symbols, x.toList <:+: s := by
  obtain ⟨⟨first, t⟩, hfirst, ⟨⟩⟩ := Option.bind_eq_some_iff.1 h
  obtain ⟨hx, ht⟩ := lifts_mathSymbol s first t hfirst
  exact infix_of_many_nextMathSymbol hx ht

lemma suffix_words (s : List Char) : (words s).2 <:+ s := by
  rw [words]
  cases h : word s with
  | none => exact List.suffix_rfl
  | some first =>
      have hfirst := (lifts_token endsWord s first.1 first.2 h).2
      exact (lifts_nextWord.many advances_nextWord first.2).2.trans hfirst

lemma infix_of_labelledFormula {word label : String}
    (h : labelledFormula word s = some ((label, formula), rest)) :
    ∀ x ∈ formula.symbols, x.toList <:+: s := by
  simp only [labelledFormula, bind, Option.bind_eq_some_iff] at h
  obtain ⟨t, ht, ⟨label, u⟩, hlabel, v, hv, read, hread, ⟨⟩⟩ := h
  have hu : u <:+ s := (lifts_nextWord t label u hlabel).2.trans (suffix_of_expect ht)
  have hsuffix : v <:+ s := (suffix_of_blanks? hv).trans hu
  exact fun x hx => (infix_of_commandFormula hread x hx).trans hsuffix.isInfix

lemma infix_of_provableCommand {label : String} {hyps : List String}
    (h : provableCommand s = some (.provable label hyps formula, rest)) :
    ∀ x ∈ formula.symbols, x.toList <:+: s := by
  simp only [provableCommand, bind, Option.bind_eq_some_iff] at h
  obtain ⟨t, ht, ⟨label, u⟩, hlabel, v, hv, w, hw, ⟨read, rest⟩, hread, ⟨⟩⟩ := h
  have hu : u <:+ s := (lifts_nextWord t label u hlabel).2.trans (suffix_of_expect ht)
  have hv : v <:+ s := ((suffix_of_expect hv).trans (suffix_skipBlanks u)).trans hu
  have hhyps : (words (skipBlanks v)).2 <:+ v := (suffix_words _).trans (suffix_skipBlanks v)
  have hw : w <:+ (words (skipBlanks v)).2 := (suffix_of_expect hw).trans (suffix_skipBlanks _)
  have hsuffix : skipBlanks w <:+ s := (suffix_skipBlanks w).trans ((hw.trans hhyps).trans hv)
  exact fun x hx => (infix_of_commandFormula hread x hx).trans hsuffix.isInfix

/-- Every symbol of a command stands in the text that the command is taken off. -/
lemma infix_of_takes (h : Takes s rest command) : ∀ x ∈ command.mathSymbols, x.toList <:+: s := by
  match command, h with
  | .database (.symbols names), h =>
      obtain ⟨t, ht, h⟩ := Option.bind_eq_some_iff.1 h
      obtain ⟨⟨first, u⟩, hfirst, ⟨⟩⟩ := Option.bind_eq_some_iff.1 h
      obtain ⟨hx, hu⟩ := lifts_nextMathSymbol t first u hfirst
      have hsuffix := suffix_of_expect ht
      exact infix_of_many_nextMathSymbol (hx.trans hsuffix.isInfix) (hu.trans hsuffix)
  | .database (.logHyp _ _), h => exact infix_of_labelledFormula h
  | .database (.axiomatic _ _), h => exact infix_of_labelledFormula h
  | .database (.provable _ _ _), h => exact infix_of_provableCommand h
  | .load _, _ => exact List.forall_mem_nil _
  | .sheet _, _ => exact List.forall_mem_nil _

/-- Every symbol that is read from a command is one, without a semicolon, and stands in its text. -/
lemma mathSymbols_of_command (h : Command.ofText? text = some command) :
    ∀ x ∈ command.mathSymbols, (IsSymbol x ∧ ';' ∉ x.toList) ∧ x.toList <:+: text.toList := by
  intro x hx
  obtain ⟨⟨found, rest⟩, hread, h⟩ := Option.bind_eq_some_iff.1 h
  obtain ⟨_, -, h⟩ := Option.bind_eq_some_iff.1 h
  obtain rfl : found = command := by
    split at h
    · exact Option.some.inj h
    · cases h
  have htakes := anyCommand_eq_some_iff.1 hread
  refine ⟨isMathSymbol_iff.1 (isMathSymbol_of_legible (legible_of_takes htakes) x hx), ?_⟩
  exact (infix_of_takes htakes x hx).trans (suffix_skipBlanks _).isInfix

/-! ### Which words are math symbols -/

/-- Every math symbol is in some worksheet. Behind it stands another one there, so that no line
break can swallow a carriage return at its end. -/
lemma exists_ofText?_of_isSymbol (hx : IsSymbol x) :
    ∃ text caret, WorksheetDraft.ofText? text =
      some ⟨some "t", none, [.derivation ⟨"1", [], none, some ⟨[x, "y"]⟩, caret⟩]⟩ := by
  let step : DerivationDraft := ⟨"1", [], none, some ⟨[x, "y"]⟩, {}⟩
  have hnumber : IsNumber "1" := by decide
  have hy : IsSymbol "y" := by decide
  have hcomment : startsWith '*' "1".toList = false := by decide
  have hhyp : startsWith 'h' "1".toList ≠ true := by decide
  have hlegible : (StepDraft.derivation step).Legible := by
    refine ⟨hnumber, List.forall_mem_nil _, by simp [step, IsWord?], ?_, hcomment,
      fun _ h => absurd h hhyp⟩
    rintro _ ⟨⟩
    exact ⟨List.cons_ne_nil _ _, List.forall_mem_cons.2 ⟨hx, List.forall_mem_singleton.2 hy⟩⟩
  have hend : (StepDraft.derivation step).text.toList.getLast? ≠ some '\r' := by
    have htext : (StepDraft.derivation step).text.toList =
        ((Header.ofDerivation "1" [] none).toList ++ ' ' :: x.toList) ++ [' ', 'y'] := by
      rw [StepDraft.text, DerivationDraft.text, toList_statementText]
      simp [step, symbolsOf, spaced]
    rw [htext, List.getLast?_append_of_ne_nil _ (List.cons_ne_nil _ _)]
    decide
  have hlabel : IsWord "t" := by decide
  have hlocAfter : IsWord? none := by simp [IsWord?]
  obtain ⟨reads, hreads, hread⟩ := exists_worksheet_sheetText hlabel hlocAfter
    (List.forall_mem_singleton.2 hlegible) (by decide) (List.forall_mem_singleton.2 hend)
    (sheetText "t" none [.derivation step]).length
  obtain ⟨caret, rfl⟩ : ∃ caret, reads = [.derivation { step with caret }] := by
    rw [List.map_singleton, List.map_eq_singleton_iff] at hreads
    obtain ⟨read, rfl, hplaced⟩ := hreads
    cases read with
    | hypothesis draft => cases hplaced
    | derivation draft =>
        obtain ⟨number, hyps, ref, formula, caret⟩ := draft
        obtain ⟨rfl, rfl, rfl, rfl, -⟩ :=
          DerivationDraft.mk.inj (StepDraft.derivation.inj hplaced)
        exact ⟨caret, rfl⟩
  refine ⟨String.ofList (sheetText "t" none [.derivation step]), caret, ?_⟩
  rw [WorksheetDraft.ofText?, String.toList_ofList]
  exact hread

/-- **The math symbols of worksheets** are the words that do not begin with a dollar sign. -/
lemma exists_draft_iff :
    (∃ text draft, WorksheetDraft.ofText? text = some draft ∧ x ∈ draft.mathSymbols) ↔
      IsSymbol x := by
  constructor
  · rintro ⟨text, draft, hread, hx⟩
    exact (mathSymbols_of_draft hread x hx).1
  · intro hx
    obtain ⟨text, caret, hread⟩ := exists_ofText?_of_isSymbol hx
    exact ⟨text, _, hread, List.mem_cons_self⟩

/-- A declaration of one math symbol is read. -/
lemma ofText?_symbol (hx : IsMathSymbol x) :
    Command.ofText? ("symbol " ++ x ++ ";") = some (.database (.symbols [x])) := by
  have htakes : Takes ("symbol".toList ++ (spaced [x] ++ [';'])) [';'] (.database (.symbols [x])) :=
    symbolsCommand_spaced (List.cons_ne_nil _ _) (List.forall_mem_singleton.2 hx) []
  refine ofText?_of_takes ?_ rfl htakes
  simp [String.toList_append, spaced]

/-- **The math symbols of commands** are those without a semicolon. -/
lemma exists_command_iff :
    (∃ text command, Command.ofText? text = some command ∧ x ∈ command.mathSymbols) ↔
      IsSymbol x ∧ ';' ∉ x.toList := by
  constructor
  · rintro ⟨text, command, hread, hx⟩
    exact (mathSymbols_of_command hread x hx).1
  · intro hx
    exact ⟨_, _, ofText?_symbol (isMathSymbol_iff.2 hx), List.mem_singleton_self x⟩

/-! ### Dollar signs -/

/-- Every dollar sign begins a word: a space, a tab or a line feed is in front of it, or nothing. -/
def DollarsLead (text : String) : Prop :=
  text.toList.IsChain fun c d => d = '$' → isSpace c = true ∨ c = '\n'

instance (text : String) : Decidable (DollarsLead text) :=
  inferInstanceAs (Decidable (List.IsChain _ _))

/-- Then no symbol that stands in the text holds one. -/
lemma not_mem_of_dollarsLead (h : DollarsLead text) (hx : IsSymbol x)
    (hin : x.toList <:+: text.toList) : '$' ∉ x.toList := by
  obtain ⟨⟨-, hblank⟩, hfirst⟩ := hx
  intro hdollar
  obtain ⟨front, behind, hsplit⟩ := List.append_of_mem hdollar
  cases front using List.reverseRecOn with
  | nil =>
      rw [hsplit] at hfirst
      cases hfirst
  | append_singleton front c =>
      have hpair : [c, '$'] <:+: x.toList := ⟨front, behind, by simp [hsplit]⟩
      obtain ⟨before, after, htext⟩ := hpair.trans hin
      rw [DollarsLead, ← htext] at h
      have hlead := (List.isChain_cons_cons.1 h.left_of_append.right_of_append).1 rfl
      obtain ⟨hspace, hfeed⟩ := hblank c (hpair.subset List.mem_cons_self)
      rw [hspace] at hlead
      exact hlead.elim (nomatch ·) hfeed

lemma not_mem_draft (h : DollarsLead text) (hread : WorksheetDraft.ofText? text = some draft) :
    ∀ x ∈ draft.mathSymbols, '$' ∉ x.toList := by
  intro x hx
  obtain ⟨hsymbol, hin⟩ := mathSymbols_of_draft hread x hx
  exact not_mem_of_dollarsLead h hsymbol hin

lemma not_mem_command (h : DollarsLead text) (hread : Command.ofText? text = some command) :
    ∀ x ∈ command.mathSymbols, '$' ∉ x.toList := by
  intro x hx
  obtain ⟨⟨hsymbol, -⟩, hin⟩ := mathSymbols_of_command hread x hx
  exact not_mem_of_dollarsLead h hsymbol hin

end Reading

end ProofSheet
