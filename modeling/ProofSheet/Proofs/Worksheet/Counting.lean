import Mathlib.Data.List.Find
import Mathlib.Data.List.Induction
import ProofSheet.Proofs.Worksheet.Settlement

/-!
Hypothesis steps without labels, and how they are matched: by counting. The step that is the
`k`-th to ask for a formula gets the `k`-th logical hypothesis with that formula, where a
hypothesis that the theorem lists twice counts once.

* `List.find?_not_mem_take_eraseDups`: the first entry that is not among the first `k` distinct
  entries of a list is the `k`-th distinct entry, counted from zero;
* `Database.choices`, `StepDraft.asksFor`: the hypotheses with a formula, and the drafts that ask
  for one;
* `Document.Counts`: the invariant of the loading. The hypotheses that the steps have taken are the
  first ones with their formula, as many as drafts have asked for it;
* `Document.Counts.resolve_eq_ok_iff`, `Document.Counts.resolve_eq_error_iff`,
  `Document.Counts.step`: what one draft becomes, why it is refused, and what it keeps;
* `Worksheet.bound_of_loadSteps`, `Worksheet.blamed_of_loadSteps`: the hypothesis that a step gets,
  and the step to blame for a refusal;
* `Worksheet.ofDraft_eq_counting`: **label-less matching is counting**.
-/

namespace ProofSheet

/-! ### Lists with repeated entries -/

namespace List

variable {α : Type} [DecidableEq α]

/-- Induction along `eraseDups`: behind its first entry a list goes on without the repetitions of
that entry. -/
@[elab_as_elim]
lemma eraseDups_induction {P : List α → Prop} (nil : P [])
    (cons : ∀ a l, P (l.filter fun b => !b == a) → P (a :: l)) : ∀ l, P l
  | [] => nil
  | a :: l => cons a l (eraseDups_induction nil cons _)
termination_by l => l.length
decreasing_by exact Nat.lt_succ_of_le (List.length_filter_le _ l)

lemma nodup_eraseDups (l : List α) : l.eraseDups.Nodup := by
  induction l using eraseDups_induction with
  | nil => exact List.nodup_nil
  | cons a l ih =>
      rw [List.eraseDups_cons, List.nodup_cons, List.mem_eraseDups]
      exact ⟨by simp, ih⟩

lemma filter_eraseDups (p : α → Bool) (l : List α) :
    l.eraseDups.filter p = (l.filter p).eraseDups := by
  induction l using eraseDups_induction with
  | nil => rfl
  | cons a l ih =>
      rw [List.eraseDups_cons, List.filter_cons, List.filter_cons, ih, List.filter_filter]
      by_cases hp : p a = true
      · rw [if_pos hp, if_pos hp, List.eraseDups_cons, List.filter_filter]
        simp only [Bool.and_comm]
      · -- nothing that satisfies `p` is equal to `a`
        rw [if_neg hp, if_neg hp]
        refine congrArg _ (List.filter_congr fun b _ => ?_)
        by_cases hb : b = a
        · simp [hb, hp]
        · simp [hb]

/-- The first entry that is not among the first `k` distinct ones is the next distinct one. -/
lemma find?_not_mem_take_eraseDups (l : List α) (k : Nat) :
    l.find? (fun a => !decide (a ∈ l.eraseDups.take k)) = l.eraseDups[k]? := by
  induction l using eraseDups_induction generalizing k with
  | nil => rfl
  | cons a l ih =>
      rw [List.eraseDups_cons]
      cases k with
      | zero => simp
      | succ k =>
          rw [List.take_succ_cons, List.getElem?_cons_succ, ← ih, List.find?_filter,
            List.find?_cons_of_neg (by simp)]
          refine congrArg (List.find? · l) (funext fun b => ?_)
          by_cases hb : b = a
          · simp [hb]
          · simp [hb]

end List

/-! ### What is asked for, and what there is -/

/-- The logical hypotheses of a theorem with a formula, in their order, each of them once. -/
def Database.choices (db : Database) (theoremLabel : String) (formula : Formula) :
    List Statement :=
  (db.hypothesesOf theoremLabel).eraseDups.filter (·.formula == formula)

/-- The draft is one of a hypothesis step with the formula. -/
def StepDraft.asksFor (formula : Formula) : StepDraft → Bool
  | .hypothesis draft => draft.formula == some formula
  | .derivation _ => false

/-- The draft leaves the labels of a theorem's hypotheses alone: a hypothesis step has a formula
and no label, and a derivation step has none of these labels. -/
def StepDraft.Unlabelled (db : Database) (theoremLabel : String) : StepDraft → Prop
  | .hypothesis draft => draft.ref = none ∧ draft.formula.isSome = true
  | .derivation draft => ∀ hyp ∈ db.hypothesesOf theoremLabel, draft.ref ≠ some hyp.label

instance (db : Database) (theoremLabel : String) :
    ∀ draft : StepDraft, Decidable (draft.Unlabelled db theoremLabel)
  | .hypothesis draft =>
    inferInstanceAs (Decidable (draft.ref = none ∧ draft.formula.isSome = true))
  | .derivation draft =>
    inferInstanceAs (Decidable (∀ hyp ∈ db.hypothesesOf theoremLabel, draft.ref ≠ some hyp.label))

namespace StepDraft

variable {before : List StepDraft}

/-- One more hypothesis draft asks for its own formula, and for no other. -/
lemma countP_concat_hypothesis {draft : HypothesisDraft} {formula : Formula}
    (hformula : draft.formula = some formula) (other : Formula) :
    (before ++ [StepDraft.hypothesis draft]).countP (·.asksFor other) =
      before.countP (·.asksFor other) + if formula = other then 1 else 0 := by
  rw [List.countP_append, List.countP_singleton, asksFor, hformula]
  simp

lemma countP_concat_derivation (draft : DerivationDraft) (formula : Formula) :
    (before ++ [StepDraft.derivation draft]).countP (·.asksFor formula) =
      before.countP (·.asksFor formula) := by
  rw [List.countP_append, List.countP_singleton]
  rfl

end StepDraft

namespace Database

variable {db : Database} {theoremLabel : String} {formula : Formula} {hyp : Statement}

lemma choices_eq (db : Database) (theoremLabel : String) (formula : Formula) :
    db.choices theoremLabel formula =
      ((db.hypothesesOf theoremLabel).filter (·.formula == formula)).eraseDups :=
  List.filter_eraseDups _ _

lemma mem_choices_iff :
    hyp ∈ db.choices theoremLabel formula ↔
      hyp ∈ db.hypothesesOf theoremLabel ∧ hyp.formula = formula := by
  rw [choices, List.mem_filter, List.mem_eraseDups, beq_iff_eq]

lemma nodup_choices (db : Database) (theoremLabel : String) (formula : Formula) :
    (db.choices theoremLabel formula).Nodup :=
  (List.nodup_eraseDups _).filter _

/-- The next choice is none of the earlier ones. -/
lemma not_mem_take_choices {k : Nat} (h : (db.choices theoremLabel formula)[k]? = some hyp) :
    hyp ∉ (db.choices theoremLabel formula).take k := by
  intro hmem
  obtain ⟨hk, rfl⟩ := List.getElem?_eq_some_iff.1 h
  obtain ⟨i, hi, heq⟩ := List.mem_take_iff_getElem.1 hmem
  have := (db.nodup_choices theoremLabel formula).getElem_inj_iff.1 heq
  omega

end Database

/-! ### The invariant of the loading -/

/-- The logical hypotheses that the steps have taken, by their identity and by their label, are the
first ones with their formula, as many as the drafts before have asked for it; and the theorem has
as many. -/
structure Document.Counts (doc : Document) (db : Database) (theoremLabel : String)
    (before : List StepDraft) : Prop where
  binds : ∀ hyp ∈ db.hypothesesOf theoremLabel, doc.binds hyp.id = true ↔
    hyp ∈ (db.choices theoremLabel hyp.formula).take (before.countP (·.asksFor hyp.formula))
  owns : ∀ hyp ∈ db.hypothesesOf theoremLabel, doc.ownsRef hyp.label = true ↔
    hyp ∈ (db.choices theoremLabel hyp.formula).take (before.countP (·.asksFor hyp.formula))
  le : ∀ formula, before.countP (·.asksFor formula) ≤ (db.choices theoremLabel formula).length

namespace Document

namespace Counts

variable {db : Database} {theoremLabel : String} {doc : Document} {before : List StepDraft}
  {formula : Formula}

lemma empty (db : Database) (theoremLabel : String) : Counts {} db theoremLabel [] := by
  refine ⟨fun hyp _ => ?_, fun hyp _ => ?_, fun formula => ?_⟩
  · rw [List.countP_nil, List.take_zero]
    exact iff_of_false Bool.false_ne_true List.not_mem_nil
  · rw [List.countP_nil, List.take_zero]
    exact iff_of_false Bool.false_ne_true List.not_mem_nil
  · rw [List.countP_nil]
    exact Nat.zero_le _

/-- **The first hypothesis that no step is bound to** is the next choice. -/
lemma matchFormula_eq (h : doc.Counts db theoremLabel before) (formula : Formula) :
    Resolution.matchFormula db theoremLabel doc formula =
      match (db.choices theoremLabel formula)[before.countP (·.asksFor formula)]? with
      | some hyp => .ok hyp
      | none => .error (if (db.choices theoremLabel formula).isEmpty then
          .hypothesisFormulaNotFound else .duplicateHypothesisFormula) := by
  have hfind : ((db.hypothesesOf theoremLabel).filter (·.formula == formula)).find?
      (fun hyp => !doc.binds hyp.id) =
      (db.choices theoremLabel formula)[before.countP (·.asksFor formula)]? := by
    rw [Database.choices_eq, ← List.find?_not_mem_take_eraseDups]
    refine List.find?_congr fun hyp hhyp => ?_
    obtain ⟨hmem, hformula⟩ := List.mem_filter.1 hhyp
    obtain rfl : hyp.formula = formula := by simpa using hformula
    rw [← Database.choices_eq]
    refine congrArg (!·) (Bool.eq_iff_iff.2 ?_)
    rw [decide_eq_true_eq]
    exact h.binds hyp hmem
  rw [Resolution.matchFormula, ← hfind]
  cases hall : (db.hypothesesOf theoremLabel).filter (·.formula == formula) with
  | nil => simp [Database.choices_eq, hall]
  | cons first rest =>
      have hsome : (db.choices theoremLabel formula).isEmpty = false := by
        rw [Database.choices_eq, hall, List.eraseDups_cons, List.isEmpty_cons]
      rw [hsome]
      cases hfound : (first :: rest).find? (fun hyp => !doc.binds hyp.id) <;> simp [hfound]

/-- **What a draft without a label becomes.** -/
lemma resolve_eq (h : doc.Counts db theoremLabel before) {draft : HypothesisDraft}
    (href : draft.ref = none) (hformula : draft.formula = some formula) :
    Resolution.resolve db (.existing theoremLabel) doc draft =
      match (db.choices theoremLabel formula)[before.countP (·.asksFor formula)]? with
      | some hyp => .ok (.ofFields draft.step hyp.label formula hyp.tree (some hyp.id))
      | none => .error ⟨theoremLabel, draft.step, if (db.choices theoremLabel formula).isEmpty then
          .hypothesisFormulaNotFound else .duplicateHypothesisFormula, draft.caret.offset⟩ := by
  have hmatch := h.matchFormula_eq formula
  cases hnext : (db.choices theoremLabel formula)[before.countP (·.asksFor formula)]? with
  | none =>
      simp only [hnext] at hmatch
      rw [Resolution.resolve, hformula]
      simp only [Resolution.settle, href, Resolution.bindHypothesis, hmatch]
      rfl
  | some hyp =>
      simp only [hnext] at hmatch
      -- the next choice is not taken by its label either
      obtain ⟨hmem, rfl⟩ := Database.mem_choices_iff.1 (List.mem_of_getElem? hnext)
      have hfree : doc.ownsRef hyp.label = false := by
        rw [← Bool.not_eq_true, h.owns hyp hmem]
        exact Database.not_mem_take_choices hnext
      refine Resolution.resolve_existing_eq_ok_iff.2 ⟨hyp.formula, hyp, hformula, ?_, rfl⟩
      rw [href]
      exact Resolution.bindHypothesis_eq_ok_iff.2 ⟨hfree, hmatch⟩

lemma resolve_eq_ok_iff (h : doc.Counts db theoremLabel before) {draft : HypothesisDraft}
    (href : draft.ref = none) (hformula : draft.formula = some formula) {t : HypothesisStep} :
    Resolution.resolve db (.existing theoremLabel) doc draft = .ok t ↔
      ∃ hyp, (db.choices theoremLabel formula)[before.countP (·.asksFor formula)]? = some hyp ∧
        .ofFields draft.step hyp.label formula hyp.tree (some hyp.id) = t := by
  rw [h.resolve_eq href hformula]
  cases (db.choices theoremLabel formula)[before.countP (·.asksFor formula)]? <;> simp

lemma resolve_eq_error_iff (h : doc.Counts db theoremLabel before) {draft : HypothesisDraft}
    (href : draft.ref = none) (hformula : draft.formula = some formula) {e : LoadError} :
    Resolution.resolve db (.existing theoremLabel) doc draft = .error e ↔
      (db.choices theoremLabel formula).length ≤ before.countP (·.asksFor formula) ∧
        e = ⟨theoremLabel, draft.step, if (db.choices theoremLabel formula).isEmpty then
          .hypothesisFormulaNotFound else .duplicateHypothesisFormula, draft.caret.offset⟩ := by
  rw [h.resolve_eq href hformula, ← List.getElem?_eq_none_iff]
  cases (db.choices theoremLabel formula)[before.countP (·.asksFor formula)]? with
  | none => exact ⟨fun he => ⟨rfl, (Except.error.inj he).symm⟩, fun he => he.2 ▸ rfl⟩
  | some hyp => simp

lemma pushDerivation (h : doc.Counts db theoremLabel before) {draft : DerivationDraft}
    (hdraft : (StepDraft.derivation draft).Unlabelled db theoremLabel) :
    (doc.push (.derivation draft.toStep)).Counts db theoremLabel
      (before ++ [.derivation draft]) := by
  refine ⟨fun hyp hhyp => ?_, fun hyp hhyp => ?_, fun formula => ?_⟩
  · rw [StepDraft.countP_concat_derivation, binds_push_derivation]
    exact h.binds hyp hhyp
  · rw [StepDraft.countP_concat_derivation, ownsRef_push, h.owns hyp hhyp]
    exact or_iff_left (hdraft hyp hhyp)
  · rw [StepDraft.countP_concat_derivation]
    exact h.le formula

lemma pushHypothesis (hdb : db.WellFormed) (h : doc.Counts db theoremLabel before)
    {draft : HypothesisDraft} (hformula : draft.formula = some formula) {hyp : Statement}
    (hnext : (db.choices theoremLabel formula)[before.countP (·.asksFor formula)]? = some hyp) :
    (doc.push (.hypothesis
      (.ofFields draft.step hyp.label formula hyp.tree (some hyp.id)))).Counts db theoremLabel
        (before ++ [.hypothesis draft]) := by
  obtain ⟨hmem, rfl⟩ := Database.mem_choices_iff.1 (List.mem_of_getElem? hnext)
  have hstatement := (hdb.of_mem_hypothesesOf hmem).1
  -- one more choice is taken, and it is the new one
  have htake : ∀ other ∈ db.hypothesesOf theoremLabel,
      other ∈ (db.choices theoremLabel other.formula).take
        ((before ++ [StepDraft.hypothesis draft]).countP (·.asksFor other.formula)) ↔
      other ∈ (db.choices theoremLabel other.formula).take
        (before.countP (·.asksFor other.formula)) ∨ hyp = other := by
    intro other hother
    rw [StepDraft.countP_concat_hypothesis hformula]
    by_cases hsame : hyp.formula = other.formula
    · rw [if_pos hsame, ← hsame, List.take_add_one, hnext]
      simp [eq_comm]
    · rw [if_neg hsame, Nat.add_zero]
      refine (or_iff_left ?_).symm
      rintro rfl
      exact hsame rfl
  refine ⟨fun other hother => ?_, fun other hother => ?_, fun formula => ?_⟩
  · rw [htake other hother, binds_push_hypothesis, h.binds other hother]
    refine or_congr_right ⟨fun hid => ?_, fun heq => heq ▸ rfl⟩
    exact hdb.eq_of_id_eq hstatement (hdb.of_mem_hypothesesOf hother).1 (Option.some.inj hid)
  · rw [htake other hother, ownsRef_push, h.owns other hother]
    refine or_congr_right ⟨fun hlabel => ?_, fun heq => heq ▸ rfl⟩
    exact hdb.eq_of_label_eq hstatement (hdb.of_mem_hypothesesOf hother).1 (Option.some.inj hlabel)
  · rw [StepDraft.countP_concat_hypothesis hformula]
    by_cases hsame : hyp.formula = formula
    · rw [if_pos hsame, ← hsame]
      exact (List.getElem?_eq_some_iff.1 hnext).1
    · rw [if_neg hsame]
      exact h.le formula

/-- The step of the invariant. -/
lemma step (hdb : db.WellFormed) (h : doc.Counts db theoremLabel before) {draft : StepDraft}
    (hdraft : draft.Unlabelled db theoremLabel) {s : ProofStep}
    (hs : Worksheet.stepOf db (.existing theoremLabel) doc draft = .ok s) :
    (doc.push s).Counts db theoremLabel (before ++ [draft]) := by
  cases draft with
  | derivation draft =>
      obtain rfl := Worksheet.stepOf_derivation_eq_ok_iff.1 hs
      exact h.pushDerivation hdraft
  | hypothesis draft =>
      obtain ⟨t, ht, rfl⟩ := Worksheet.stepOf_hypothesis_eq_ok_iff.1 hs
      obtain ⟨href, hsome⟩ := hdraft
      obtain ⟨formula, hformula⟩ := Option.isSome_iff_exists.1 hsome
      obtain ⟨hyp, hnext, rfl⟩ := (h.resolve_eq_ok_iff href hformula).1 ht
      exact h.pushHypothesis hdb hformula hnext

/-- The invariant of a whole load. -/
lemma of_loadSteps (hdb : db.WellFormed) {drafts : List StepDraft}
    (hdrafts : ∀ d ∈ drafts, d.Unlabelled db theoremLabel)
    (h : Worksheet.loadSteps db (.existing theoremLabel) {} drafts = .ok doc) :
    doc.Counts db theoremLabel drafts := by
  induction drafts using List.reverseRecOn generalizing doc with
  | nil => exact Worksheet.loadSteps_nil_eq_ok_iff.1 h ▸ .empty db theoremLabel
  | append_singleton drafts draft ih =>
      obtain ⟨mid, s, hmid, hs, rfl⟩ := Worksheet.loadSteps_concat_eq_ok_iff.1 h
      obtain ⟨hdrafts, hdraft⟩ := List.forall_mem_append.1 hdrafts
      exact (ih hdrafts hmid).step hdb (hdraft draft (List.mem_singleton_self _)) hs

end Counts

end Document

/-! ### Worksheets without labels -/

namespace Worksheet

variable {db : Database} {theoremLabel : String} {drafts before after : List StepDraft}
  {draft : HypothesisDraft} {formula : Formula} {doc : Document}

/-- What a draft in the middle is bound to when all of them are settled. -/
lemma bound_of_loadSteps (hdb : db.WellFormed)
    (hdrafts : ∀ d ∈ before ++ .hypothesis draft :: after, d.Unlabelled db theoremLabel)
    (hformula : draft.formula = some formula)
    (h : loadSteps db (.existing theoremLabel) {} (before ++ .hypothesis draft :: after) =
      .ok doc) :
    ∃ hyp t, (db.choices theoremLabel formula)[before.countP (·.asksFor formula)]? = some hyp ∧
      doc.steps[before.length]? = some (.hypothesis t) ∧ t.step = draft.step ∧
        t.StandsFor db theoremLabel hyp := by
  obtain ⟨hbefore, hdraft⟩ := List.forall_mem_append.1 hdrafts
  obtain ⟨href, -⟩ := hdraft _ List.mem_cons_self
  obtain ⟨mid, hmid, h⟩ := loadSteps_append_eq_ok_iff.1 h
  obtain ⟨s, hs, h⟩ := loadSteps_cons_eq_ok_iff.1 h
  obtain ⟨t, ht, rfl⟩ := stepOf_hypothesis_eq_ok_iff.1 hs
  obtain ⟨hyp, hnext, rfl⟩ :=
    ((Document.Counts.of_loadSteps hdb hbefore hmid).resolve_eq_ok_iff href hformula).1 ht
  obtain ⟨hmem, rfl⟩ := Database.mem_choices_iff.1 (List.mem_of_getElem? hnext)
  obtain ⟨hstatement, hlog⟩ := hdb.of_mem_hypothesesOf hmem
  refine ⟨hyp, .ofFields draft.step hyp.label hyp.formula hyp.tree (some hyp.id), hnext, ?_, rfl,
    ⟨rfl, hdb.statement?_eq_some_iff.2 ⟨hstatement, rfl⟩, hlog, hmem, rfl, rfl, rfl⟩⟩
  -- the step stands behind those of the drafts before, and stays there
  obtain ⟨more, hmore⟩ := steps_prefix_of_loadSteps h
  have hlength : mid.steps.length = before.length := by
    rw [length_steps_of_loadSteps hmid]
    exact Nat.zero_add _
  rw [← hmore, Document.push, List.append_assoc, ← hlength, List.getElem?_append_right le_rfl,
    Nat.sub_self]
  rfl

/-- The draft to blame for a refusal is the first one that asks once too often. -/
lemma blamed_of_loadSteps (hdb : db.WellFormed)
    (hdrafts : ∀ d ∈ drafts, d.Unlabelled db theoremLabel) {e : LoadError}
    (h : loadSteps db (.existing theoremLabel) {} drafts = .error e) :
    ∃ before draft after formula, drafts = before ++ .hypothesis draft :: after ∧
      draft.formula = some formula ∧
      (∀ other, before.countP (·.asksFor other) ≤ (db.choices theoremLabel other).length) ∧
      (db.choices theoremLabel formula).length <
        (before ++ [.hypothesis draft]).countP (·.asksFor formula) ∧
      e = ⟨theoremLabel, draft.step, if (db.choices theoremLabel formula).isEmpty then
        .hypothesisFormulaNotFound else .duplicateHypothesisFormula, draft.caret.offset⟩ := by
  obtain ⟨before, draft, after, mid, rfl, hmid, hblamed⟩ := of_loadSteps_eq_error h
  obtain ⟨hbefore, hdraft⟩ := List.forall_mem_append.1 hdrafts
  obtain ⟨href, hsome⟩ := hdraft _ List.mem_cons_self
  obtain ⟨formula, hformula⟩ := Option.isSome_iff_exists.1 hsome
  have hcounts := Document.Counts.of_loadSteps hdb hbefore hmid
  obtain ⟨hfull, rfl⟩ := (hcounts.resolve_eq_error_iff href hformula).1 hblamed
  refine ⟨before, draft, after, formula, rfl, hformula, hcounts.le, ?_, rfl⟩
  rw [StepDraft.countP_concat_hypothesis hformula, if_pos rfl]
  exact Nat.lt_succ_of_le hfull

/-- Drafts are settled when no formula is asked for too often. -/
lemma exists_loadSteps_iff_countP_le (hdb : db.WellFormed)
    (hdrafts : ∀ d ∈ drafts, d.Unlabelled db theoremLabel) :
    (∃ doc, loadSteps db (.existing theoremLabel) {} drafts = .ok doc) ↔
      ∀ formula,
        drafts.countP (·.asksFor formula) ≤ (db.choices theoremLabel formula).length := by
  constructor
  · rintro ⟨doc, hdoc⟩
    exact (Document.Counts.of_loadSteps hdb hdrafts hdoc).le
  · intro hle
    cases h : loadSteps db (.existing theoremLabel) {} drafts with
    | ok doc => exact ⟨doc, rfl⟩
    | error e =>
        obtain ⟨before, draft, after, formula, rfl, -, -, hlt, -⟩ :=
          blamed_of_loadSteps hdb hdrafts h
        have := hle formula
        rw [← List.singleton_append, ← List.append_assoc, List.countP_append] at this
        omega

/-- **Label-less matching is counting.** The draft of a worksheet for a theorem of the database,
in which no hypothesis step has a label and no derivation step has one of the labels of the
theorem's hypotheses, is accepted exactly when every formula is asked for at most as often as the
theorem has different hypotheses with it. Then every step gets the hypothesis with its formula
whose rank is its own among the steps with that formula. Otherwise the step to blame is the first
one that asks once too often. -/
theorem ofDraft_eq_counting (hdb : db.Built) {draft : WorksheetDraft}
    (hlabel : draft.theoremLabel = some theoremLabel) {s : Statement}
    (hfind : db.find? theoremLabel = some s) (hthm : s.isTheorem = true)
    (hdrafts : ∀ d ∈ draft.steps, d.Unlabelled db theoremLabel) :
    ((∃ sheet, ofDraft db draft = .ok sheet) ↔ ∀ formula,
      draft.steps.countP (·.asksFor formula) ≤ (db.choices theoremLabel formula).length) ∧
    (∀ sheet, ofDraft db draft = .ok sheet → ∀ before d after formula,
      draft.steps = before ++ .hypothesis d :: after → d.formula = some formula →
        ∃ hyp t, (db.choices theoremLabel formula)[before.countP (·.asksFor formula)]? = some hyp ∧
          sheet.document.steps[before.length]? = some (.hypothesis t) ∧ t.step = d.step ∧
            t.StandsFor db theoremLabel hyp) ∧
    (∀ e, ofDraft db draft = .error e → ∃ before d after formula,
      draft.steps = before ++ .hypothesis d :: after ∧ d.formula = some formula ∧
        (∀ other, before.countP (·.asksFor other) ≤ (db.choices theoremLabel other).length) ∧
        (db.choices theoremLabel formula).length <
          (before ++ [.hypothesis d]).countP (·.asksFor formula) ∧
        e = .load ⟨theoremLabel, d.step, if (db.choices theoremLabel formula).isEmpty then
          .hypothesisFormulaNotFound else .duplicateHypothesisFormula, d.caret.offset⟩) := by
  have hwf := hdb.wellFormed
  have htarget : Target.ofLabel db theoremLabel = .ok (.existing theoremLabel) :=
    Target.ofLabel_eq_existing_iff.2 ⟨rfl, s, hfind, hthm⟩
  have hok (sheet : Worksheet) (h : ofDraft db draft = .ok sheet) :
      loadSteps db (.existing theoremLabel) {} draft.steps = .ok sheet.document := by
    obtain ⟨label, hlabel', htarget', -, hsteps⟩ := ofDraft_eq_ok_iff.1 h
    obtain rfl := Option.some.inj (hlabel.symm.trans hlabel')
    rw [← Except.ok.inj (htarget.symm.trans htarget')] at hsteps
    exact hsteps
  refine ⟨?_, fun sheet h before d after formula hsplit hformula => ?_, fun e h => ?_⟩
  · rw [← exists_loadSteps_iff_countP_le hwf hdrafts]
    constructor
    · rintro ⟨sheet, h⟩
      exact ⟨_, hok sheet h⟩
    · rintro ⟨doc, hdoc⟩
      exact ⟨⟨.existing theoremLabel, draft.locAfter, doc⟩,
        ofDraft_eq_ok_iff.2 ⟨theoremLabel, hlabel, htarget, rfl, hdoc⟩⟩
  · have hsteps := hok sheet h
    rw [hsplit] at hsteps hdrafts
    exact bound_of_loadSteps hwf hdrafts hformula hsteps
  · obtain ⟨e, rfl, hsteps⟩ := (ofDraft_eq_error_iff hlabel htarget).1 h
    obtain ⟨before, d, after, formula, hsplit, hformula, hle, hlt, rfl⟩ :=
      blamed_of_loadSteps hwf hdrafts hsteps
    exact ⟨before, d, after, formula, hsplit, hformula, hle, hlt, rfl⟩

/-- A theorem on hypotheses `a`, `b`, `a`, `c`, the first two with one formula: two steps may ask
for that formula, with others in between, and the later one of them gets `b`; a third may not. -/
theorem ofDraft_eq_counting_listed_twice :
    ∃ db : Database, db.Built ∧
      (db.hypothesesOf "t").map (·.label) = ["a", "b", "a", "c"] ∧
      (∃ sheet t hyp, ofDraft db ⟨some "t", none, [
          .hypothesis ⟨"1", none, some ⟨["x"]⟩, none, {}⟩, .derivation ⟨"2", ["1"], none, none, {}⟩,
          .hypothesis ⟨"3", none, some ⟨["y"]⟩, none, {}⟩,
          .hypothesis ⟨"4", none, some ⟨["x"]⟩, none, {}⟩]⟩ = .ok sheet ∧
        sheet.document.steps[3]? = some (.hypothesis t) ∧ t.StandsFor db "t" hyp ∧
          hyp.label = "b") ∧
      ¬ ∃ sheet, ofDraft db ⟨some "t", none, [
          .hypothesis ⟨"1", none, some ⟨["x"]⟩, none, {}⟩,
          .hypothesis ⟨"2", none, some ⟨["x"]⟩, none, {}⟩,
          .hypothesis ⟨"3", none, some ⟨["x"]⟩, none, {}⟩]⟩ = .ok sheet := by
  let db : Database := ⟨[⟨0, "a", ⟨["x"]⟩, .logHyp⟩, ⟨1, "b", ⟨["x"]⟩, .logHyp⟩,
    ⟨2, "c", ⟨["y"]⟩, .logHyp⟩, ⟨3, "t", ⟨["z"]⟩, .provable [0, 1, 0, 2]⟩], []⟩
  have hdb : db.Built :=
    ((Relation.ReflTransGen.single (.logHyp "a" ⟨["x"]⟩ rfl)).tail (.logHyp "b" ⟨["x"]⟩ rfl)).tail
      (.logHyp "c" ⟨["y"]⟩ rfl) |>.tail (.provable "t" ["a", "b", "a", "c"] ⟨["z"]⟩ rfl)
  have hfind : db.find? "t" = some ⟨3, "t", ⟨["z"]⟩, .provable [0, 1, 0, 2]⟩ := rfl
  refine ⟨db, hdb, by decide, ?_, ?_⟩
  · let draft : WorksheetDraft := ⟨some "t", none, [
      .hypothesis ⟨"1", none, some ⟨["x"]⟩, none, {}⟩, .derivation ⟨"2", ["1"], none, none, {}⟩,
      .hypothesis ⟨"3", none, some ⟨["y"]⟩, none, {}⟩,
      .hypothesis ⟨"4", none, some ⟨["x"]⟩, none, {}⟩]⟩
    have hdrafts : ∀ d ∈ draft.steps, d.Unlabelled db "t" := by decide
    obtain ⟨sheet, hsheet⟩ : ∃ sheet, ofDraft db draft = .ok sheet := ⟨_, rfl⟩
    obtain ⟨-, hbound, -⟩ := ofDraft_eq_counting hdb rfl hfind rfl hdrafts
    obtain ⟨hyp, t, hhyp, ht, -, hstands⟩ := hbound sheet hsheet [_, _, _] _ [] ⟨["x"]⟩ rfl rfl
    obtain rfl := Option.some.inj hhyp
    exact ⟨sheet, t, _, hsheet, ht, hstands, rfl⟩
  · let draft : WorksheetDraft := ⟨some "t", none, [
      .hypothesis ⟨"1", none, some ⟨["x"]⟩, none, {}⟩,
      .hypothesis ⟨"2", none, some ⟨["x"]⟩, none, {}⟩,
      .hypothesis ⟨"3", none, some ⟨["x"]⟩, none, {}⟩]⟩
    have hdrafts : ∀ d ∈ draft.steps, d.Unlabelled db "t" := by decide
    obtain ⟨hiff, -⟩ := ofDraft_eq_counting hdb rfl hfind rfl hdrafts
    rw [hiff]
    exact fun hle => absurd (hle ⟨["x"]⟩) (by decide)

end Worksheet

end ProofSheet
