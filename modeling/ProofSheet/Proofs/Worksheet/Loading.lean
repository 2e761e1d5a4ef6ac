import ProofSheet.Proofs.Reading.Sheet
import ProofSheet.Proofs.Resolution.Resolve
import ProofSheet.Proofs.Step.Rendering

/-!
Loading a worksheet, taken apart.

* `Worksheet.stepOf`: the step that one draft becomes, whatever its kind, with `layOut_of_stepOf`
  and `legible_of_stepOf`: it is laid out, and a text can hold its numbers and its formula;
* `Worksheet.loadSteps_cons_eq_ok_iff`, `Worksheet.loadSteps_induction`: one draft after the other,
  and what every one of them keeps;
* `Worksheet.loadSteps_append_eq_ok_iff`, `Worksheet.of_loadSteps_eq_error`: some drafts and then
  the others, and the draft that is to blame for a refusal;
* `Worksheet.loadSteps_eq_ok_of_placed_eq`: the places of the drafts do not matter;
* `Worksheet.ofDraft_eq_ok_iff`, `Worksheet.load_eq_ok_iff`: when a draft and a text are loaded.
-/

namespace ProofSheet.Worksheet

variable {db : Database} {target : Target} {doc final : Document} {draft : StepDraft}
  {drafts : List StepDraft} {s : ProofStep}

/-! ### Steps -/

/-- The step that a draft becomes behind the steps of `doc`. -/
def stepOf (db : Database) (target : Target) (doc : Document) :
    StepDraft → Except LoadError ProofStep
  | .hypothesis draft => (Resolution.resolve db target doc draft).map .hypothesis
  | .derivation draft => .ok (.derivation draft.toStep)

lemma stepOf_hypothesis_eq_ok_iff {draft : HypothesisDraft} :
    stepOf db target doc (.hypothesis draft) = .ok s ↔
      ∃ t, Resolution.resolve db target doc draft = .ok t ∧ .hypothesis t = s :=
  Except.map_eq_ok_iff

lemma stepOf_derivation_eq_ok_iff {draft : DerivationDraft} :
    stepOf db target doc (.derivation draft) = .ok s ↔ .derivation draft.toStep = s := by
  rw [stepOf, Except.ok.injEq]

/-- A step does not depend on the place of its draft. -/
lemma stepOf_placed_eq_ok_iff {caret : Caret} :
    stepOf db target doc (draft.placed caret) = .ok s ↔ stepOf db target doc draft = .ok s := by
  cases draft with
  | hypothesis draft =>
      simp only [StepDraft.placed, stepOf_hypothesis_eq_ok_iff, Resolution.resolve,
        Except.mapError_eq_ok_iff]
      cases target <;> exact Iff.rfl
  | derivation draft => exact Iff.rfl

/-- Drafts that differ in their places become the same step. -/
lemma stepOf_eq_ok_of_placed_eq {read : StepDraft} (hsame : read.placed {} = draft.placed {})
    (h : stepOf db target doc draft = .ok s) : stepOf db target doc read = .ok s := by
  rw [← stepOf_placed_eq_ok_iff, hsame, stepOf_placed_eq_ok_iff]
  exact h

/-- A resolved step is laid out. -/
lemma layOut_of_stepOf {draft : StepDraft} (hs : stepOf db target doc draft = .ok s) :
    s.layOut = s := by
  cases draft with
  | derivation draft =>
      obtain rfl := stepOf_derivation_eq_ok_iff.1 hs
      rfl
  | hypothesis draft =>
      obtain ⟨t, ht, rfl⟩ := stepOf_hypothesis_eq_ok_iff.1 hs
      cases target with
      | fresh theoremLabel =>
          obtain ⟨formula, label, -, -, rfl⟩ := Resolution.resolve_fresh_eq_ok_iff.1 ht
          rfl
      | existing theoremLabel =>
          obtain ⟨formula, hyp, -, -, rfl⟩ := Resolution.resolve_existing_eq_ok_iff.1 ht
          rfl

/-- The numbers and the formula of a step are those of its draft, so a text can hold them. -/
lemma legible_of_stepOf (hdraft : draft.Legible) (hs : stepOf db target doc draft = .ok s) :
    (∀ n ∈ s.numbers, Reading.IsNumber n) ∧ ∀ f ∈ s.formula?, Reading.IsFormula f := by
  cases draft with
  | derivation draft =>
      have hdraft : draft.Legible := hdraft
      obtain rfl := stepOf_derivation_eq_ok_iff.1 hs
      exact ⟨List.forall_mem_cons.2 ⟨hdraft.step, hdraft.hyps⟩, hdraft.formula⟩
  | hypothesis draft =>
      have hdraft : draft.Legible := hdraft
      obtain ⟨t, ht, rfl⟩ := stepOf_hypothesis_eq_ok_iff.1 hs
      obtain ⟨hstep, hformula⟩ := Resolution.fields_of_resolve ht
      have hnumber : Reading.IsNumber t.step := hstep ▸ hdraft.step
      refine ⟨List.forall_mem_singleton.2 hnumber, ?_⟩
      rintro f ⟨⟩
      exact hdraft.formula t.formula hformula

/-! ### Steps one after the other -/

lemma loadSteps_nil_eq_ok_iff : loadSteps db target doc [] = .ok final ↔ doc = final := by
  rw [loadSteps, Except.ok.injEq]

lemma loadSteps_cons_eq_ok_iff :
    loadSteps db target doc (draft :: drafts) = .ok final ↔
      ∃ s, stepOf db target doc draft = .ok s ∧
        loadSteps db target (doc.push s) drafts = .ok final := by
  cases draft with
  | hypothesis draft =>
      rw [loadSteps, stepOf]
      cases Resolution.resolve db target doc draft <;> simp [Except.map]
  | derivation draft => simp [loadSteps, stepOf]

/-- What every step keeps, the whole document keeps. -/
lemma loadSteps_induction {P : Document → Prop}
    (hstep : ∀ doc, ∀ draft ∈ drafts, ∀ s, P doc → stepOf db target doc draft = .ok s →
      P (doc.push s))
    (hdoc : P doc) (h : loadSteps db target doc drafts = .ok final) : P final := by
  induction drafts generalizing doc with
  | nil => exact loadSteps_nil_eq_ok_iff.1 h ▸ hdoc
  | cons draft drafts ih =>
      obtain ⟨s, hs, h⟩ := loadSteps_cons_eq_ok_iff.1 h
      exact ih (fun doc d hd => hstep doc d (List.mem_cons_of_mem _ hd))
        (hstep doc draft List.mem_cons_self s hdoc hs) h

/-- What holds of every step that a draft becomes, holds of every step of the document. -/
lemma forall_mem_steps_of_loadSteps {P : ProofStep → Prop}
    (hstep : ∀ doc, ∀ draft ∈ drafts, ∀ s, stepOf db target doc draft = .ok s → P s)
    (hdoc : ∀ s ∈ doc.steps, P s) (h : loadSteps db target doc drafts = .ok final) :
    ∀ s ∈ final.steps, P s := by
  refine loadSteps_induction (P := fun doc => ∀ s ∈ doc.steps, P s) ?_ hdoc h
  intro doc draft hdraft s hdoc hs
  exact List.forall_mem_append.2 ⟨hdoc, List.forall_mem_singleton.2 (hstep doc draft hdraft s hs)⟩

/-- The steps that are there stay in front. -/
lemma steps_prefix_of_loadSteps (h : loadSteps db target doc drafts = .ok final) :
    doc.steps <+: final.steps :=
  loadSteps_induction (P := fun d => doc.steps <+: d.steps)
    (fun _ _ _ _ hprefix _ => hprefix.trans (List.prefix_append _ _)) List.prefix_rfl h

/-- The first draft becomes the first of the steps that are put behind those of `doc`. -/
lemma of_loadSteps_cons {steps : List ProofStep}
    (h : loadSteps db target doc (draft :: drafts) = .ok ⟨doc.steps ++ s :: steps⟩) :
    stepOf db target doc draft = .ok s ∧
      loadSteps db target (doc.push s) drafts = .ok ⟨(doc.push s).steps ++ steps⟩ := by
  obtain ⟨t, ht, h⟩ := loadSteps_cons_eq_ok_iff.1 h
  have hprefix : doc.steps ++ [t] <+: doc.steps ++ s :: steps := steps_prefix_of_loadSteps h
  obtain ⟨more, hmore⟩ := (List.prefix_append_right_inj _).1 hprefix
  obtain rfl : t = s := (List.cons.inj hmore).1
  refine ⟨ht, h.trans ?_⟩
  rw [Document.push, List.append_assoc, List.singleton_append]

/-- Some drafts and then the others. -/
lemma loadSteps_append_eq_ok_iff {more : List StepDraft} :
    loadSteps db target doc (drafts ++ more) = .ok final ↔
      ∃ mid, loadSteps db target doc drafts = .ok mid ∧
        loadSteps db target mid more = .ok final := by
  induction drafts generalizing doc with
  | nil => simp [loadSteps_nil_eq_ok_iff]
  | cons draft drafts ih =>
      rw [List.cons_append, loadSteps_cons_eq_ok_iff]
      constructor
      · rintro ⟨s, hs, h⟩
        obtain ⟨mid, hmid, h⟩ := ih.1 h
        exact ⟨mid, loadSteps_cons_eq_ok_iff.2 ⟨s, hs, hmid⟩, h⟩
      · rintro ⟨mid, hmid, h⟩
        obtain ⟨s, hs, hmid⟩ := loadSteps_cons_eq_ok_iff.1 hmid
        exact ⟨s, hs, ih.2 ⟨mid, hmid, h⟩⟩

/-- One more draft behind the others. -/
lemma loadSteps_concat_eq_ok_iff :
    loadSteps db target doc (drafts ++ [draft]) = .ok final ↔
      ∃ mid s, loadSteps db target doc drafts = .ok mid ∧
        stepOf db target mid draft = .ok s ∧ final = mid.push s := by
  simp only [loadSteps_append_eq_ok_iff, loadSteps_cons_eq_ok_iff, loadSteps_nil_eq_ok_iff]
  exact exists_congr fun mid => by simp [eq_comm]

/-- Every draft becomes one step. -/
lemma length_steps_of_loadSteps (h : loadSteps db target doc drafts = .ok final) :
    final.steps.length = doc.steps.length + drafts.length := by
  induction drafts generalizing doc with
  | nil => exact loadSteps_nil_eq_ok_iff.1 h ▸ rfl
  | cons draft drafts ih =>
      obtain ⟨s, -, h⟩ := loadSteps_cons_eq_ok_iff.1 h
      rw [ih h, Document.push, List.length_append, List.length_singleton, List.length_cons]
      omega

/-- **The draft to blame** for a refusal: the drafts before it are settled, and it is not. -/
lemma of_loadSteps_eq_error {e : LoadError} (h : loadSteps db target doc drafts = .error e) :
    ∃ before blamed after mid, drafts = before ++ .hypothesis blamed :: after ∧
      loadSteps db target doc before = .ok mid ∧
        Resolution.resolve db target mid blamed = .error e := by
  induction drafts generalizing doc with
  | nil => exact nomatch h
  | cons draft drafts ih =>
      -- the first draft is to blame, or it becomes a step and a later one is
      have hlater {s : ProofStep} (hs : stepOf db target doc draft = .ok s)
          (h : loadSteps db target (doc.push s) drafts = .error e) :
          ∃ before blamed after mid, draft :: drafts = before ++ .hypothesis blamed :: after ∧
            loadSteps db target doc before = .ok mid ∧
              Resolution.resolve db target mid blamed = .error e := by
        obtain ⟨before, blamed, after, mid, rfl, hmid, hblamed⟩ := ih h
        exact ⟨draft :: before, blamed, after, mid, rfl,
          loadSteps_cons_eq_ok_iff.2 ⟨s, hs, hmid⟩, hblamed⟩
      cases draft with
      | hypothesis draft =>
          rw [loadSteps] at h
          cases hs : Resolution.resolve db target doc draft with
          | error e' =>
              rw [hs] at h
              cases h
              exact ⟨[], draft, drafts, doc, rfl, loadSteps_nil_eq_ok_iff.2 rfl, hs⟩
          | ok s =>
              rw [hs] at h
              exact hlater (stepOf_hypothesis_eq_ok_iff.2 ⟨s, hs, rfl⟩) h
      | derivation draft => exact hlater rfl h

/-- Drafts that differ in their places become the same document. -/
lemma loadSteps_eq_ok_of_placed_eq {reads : List StepDraft}
    (hsame : reads.map (StepDraft.placed {}) = drafts.map (StepDraft.placed {}))
    (h : loadSteps db target doc drafts = .ok final) :
    loadSteps db target doc reads = .ok final := by
  induction drafts generalizing doc reads with
  | nil =>
      obtain rfl := List.map_eq_nil_iff.1 hsame
      exact h
  | cons draft drafts ih =>
      obtain ⟨read, reads, rfl, hread, hsame⟩ := List.map_eq_cons_iff.1 hsame
      obtain ⟨s, hs, h⟩ := loadSteps_cons_eq_ok_iff.1 h
      exact loadSteps_cons_eq_ok_iff.2 ⟨s, stepOf_eq_ok_of_placed_eq hread hs, ih hsame h⟩

/-! ### Whole worksheets -/

variable {sheet : Worksheet}

lemma ofDraft_eq_ok_iff {draft : WorksheetDraft} :
    ofDraft db draft = .ok sheet ↔
      ∃ label, draft.theoremLabel = some label ∧ Target.ofLabel db label = .ok sheet.target ∧
        draft.locAfter = sheet.locAfter ∧
          loadSteps db sheet.target {} draft.steps = .ok sheet.document := by
  rw [ofDraft]
  cases draft.theoremLabel with
  | none => simp
  | some label =>
      simp only [Except.bind_eq_ok_iff, Except.mapError_eq_ok_iff, Option.some.injEq,
        exists_eq_left']
      constructor
      · rintro ⟨target, htarget, document, hdocument, ⟨⟩⟩
        exact ⟨htarget, rfl, hdocument⟩
      · rintro ⟨htarget, hloc, hdocument⟩
        exact ⟨_, htarget, _, hdocument, hloc ▸ rfl⟩

lemma loadSteps_of_ofDraft {draft : WorksheetDraft} {label : String}
    (hlabel : draft.theoremLabel = some label) (htarget : Target.ofLabel db label = .ok target)
    (h : ofDraft db draft = .ok sheet) :
    loadSteps db target {} draft.steps = .ok sheet.document := by
  obtain ⟨label', hlabel', htarget', -, hsteps⟩ := ofDraft_eq_ok_iff.1 h
  obtain rfl := Option.some.inj (hlabel.symm.trans hlabel')
  rw [← Except.ok.inj (htarget.symm.trans htarget')] at hsteps
  exact hsteps

/-- A draft whose theorem is known is accepted when all its steps are settled. -/
lemma exists_ofDraft_iff {draft : WorksheetDraft} {label : String}
    (hlabel : draft.theoremLabel = some label) (htarget : Target.ofLabel db label = .ok target) :
    (∃ sheet, ofDraft db draft = .ok sheet) ↔
      ∃ doc, loadSteps db target {} draft.steps = .ok doc := by
  constructor
  · rintro ⟨sheet, h⟩
    exact ⟨_, loadSteps_of_ofDraft hlabel htarget h⟩
  · rintro ⟨doc, hdoc⟩
    exact ⟨⟨target, draft.locAfter, doc⟩,
      ofDraft_eq_ok_iff.2 ⟨label, hlabel, htarget, rfl, hdoc⟩⟩

lemma ofDraft_eq_error_iff {draft : WorksheetDraft} {label : String} {e : WorksheetError}
    (hlabel : draft.theoremLabel = some label) (htarget : Target.ofLabel db label = .ok target) :
    ofDraft db draft = .error e ↔
      ∃ e', e = .load e' ∧ loadSteps db target {} draft.steps = .error e' := by
  rw [ofDraft, hlabel]
  cases hsteps : loadSteps db target {} draft.steps with
  | error e' => simp [htarget, hsteps, Except.mapError, bind, Except.bind, eq_comm]
  | ok document => simp [htarget, hsteps, Except.mapError, bind, Except.bind, pure, Except.pure]

lemma load_eq_ok_iff {text : String} :
    load db text = .ok sheet ↔
      ∃ draft, WorksheetDraft.ofText? text = some draft ∧ ofDraft db draft = .ok sheet := by
  rw [load]
  cases WorksheetDraft.ofText? text <;> simp

end ProofSheet.Worksheet
