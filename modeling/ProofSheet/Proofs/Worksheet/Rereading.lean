import ProofSheet.Proofs.Label
import ProofSheet.Proofs.Worksheet.Editing
import ProofSheet.Proofs.Worksheet.Settlement

/-!
Drafts of settled steps. A step that was resolved can be written with the label that it got, and
it resolves to itself again.

* `ProofStep.draft`, `Worksheet.draft`: what stands in the text of a step and of a worksheet;
* `Worksheet.stepOf_draft`: **resolution is idempotent**: the draft of a step that a draft became
  becomes the same step;
* `Worksheet.stepOf_renumber`: renumbering commutes with it;
* `Worksheet.Rereads`: the invariant of editing, that a worksheet is what its draft becomes;
* `Worksheet.Edited.rereads`: it holds of every worksheet that is loaded and edited.
-/

namespace ProofSheet

open Reading

/-! ### Drafts of steps -/

namespace ProofStep

/-- What stands in the text of a step. -/
def draft : ProofStep → StepDraft
  | hypothesis s =>
    .hypothesis { step := s.step, ref := written s.ref, formula := some s.formula }
  | derivation s =>
    .derivation { step := s.step, hyps := s.hyps, ref := s.ref, formula := s.formula }

end ProofStep

lemma written_getD (v : String) : (written v).getD "" = v := by
  rw [written]
  split
  next h => exact h.symm
  next => rfl

/-- The text of a step is written from its draft. -/
lemma ProofStep.Rendered.text_eq {s : ProofStep} (h : s.Rendered) : s.text = s.draft.text := by
  cases s with
  | hypothesis s =>
      have hheader : Header.ofHypothesis s.step (some s.ref) =
          Header.ofHypothesis s.step (written s.ref) := by
        rw [Header.ofHypothesis, Header.ofHypothesis, written_getD, Option.getD_some]
      exact h.trans (congrArg (statementText · (some s.formula)) hheader)
  | derivation s => exact h

/-! ### Resolving the draft of a step -/

namespace Resolution

variable {db : Database} {theoremLabel : String} {doc : Document}

/-- A label that was reserved can be given. -/
lemma reserve_written {ref : Option String} {label : String}
    (h : reserve db theoremLabel doc ref = .ok label) :
    reserve db theoremLabel doc (written label) = .ok label ∧ IsWord label := by
  obtain ⟨-, hfree, hnew, hwf, hreserved⟩ := reserve_eq_ok_iff.1 h
  have hword := Label.isWord_of_isWellFormed hwf
  refine ⟨?_, hword⟩
  rw [(written_eq_some_iff hword.1).2 rfl]
  exact reserve_eq_ok_iff.2 ⟨rfl, hfree, hnew, hwf, hreserved⟩

/-- The label of a logical hypothesis that was found finds it. -/
lemma bindHypothesis_written (hdb : db.WellFormed) {ref : Option String} (href : IsWord? ref)
    {formula : Formula} {hyp : Statement}
    (h : bindHypothesis db theoremLabel doc ref formula = .ok hyp) :
    bindHypothesis db theoremLabel doc (written hyp.label) formula = .ok hyp := by
  obtain ⟨hmem, hformula, hfree, hgiven⟩ := of_bindHypothesis hdb h
  obtain ⟨hstatement, hlog⟩ := hdb.of_mem_hypothesesOf hmem
  by_cases hempty : hyp.label = ""
  · -- an empty label is not written, and it was not given either
    have hnone : ref = none := by
      rw [Option.eq_none_iff_forall_ne_some]
      rintro label rfl
      exact (href label rfl).1 ((hgiven label rfl).trans hempty)
    rw [hnone] at h
    rw [hempty, written, if_pos rfl]
    exact h
  · rw [(written_eq_some_iff hempty).2 rfl]
    refine bindHypothesis_eq_ok_iff.2 ⟨hfree, matchLabel_eq_ok_iff.2 ?_⟩
    exact ⟨hdb.find?_eq_some_iff.2 ⟨hstatement, rfl⟩, hlog, ⟨hyp, hmem, rfl⟩, hformula⟩

end Resolution

namespace Worksheet

variable {db : Database} {target : Target} {doc : Document} {s : ProofStep}

/-- **Resolution is idempotent**: what is written for a resolved step becomes the same step. -/
lemma stepOf_draft (hdb : db.WellFormed) (hlabels : ∀ s ∈ db.statements, Blankless s.label.toList)
    {draft : StepDraft} (hdraft : draft.Legible) (hs : stepOf db target doc draft = .ok s) :
    s.draft.Legible ∧ stepOf db target doc s.draft = .ok s := by
  cases draft with
  | derivation draft =>
      obtain rfl := stepOf_derivation_eq_ok_iff.1 hs
      exact ⟨⟨hdraft.step, hdraft.hyps, hdraft.ref, hdraft.formula, hdraft.not_comment,
        hdraft.not_hypothesis⟩, rfl⟩
  | hypothesis draft =>
      obtain ⟨t, ht, rfl⟩ := stepOf_hypothesis_eq_ok_iff.1 hs
      cases target with
      | fresh theoremLabel =>
          obtain ⟨formula, label, hformula, hlabel, rfl⟩ := Resolution.resolve_fresh_eq_ok_iff.1 ht
          obtain ⟨hwritten, hword⟩ := Resolution.reserve_written hlabel
          refine ⟨⟨hdraft.step, isWord?_written hword.2, ?_, rfl⟩, ?_⟩
          · rintro f ⟨⟩
            exact hdraft.formula formula hformula
          · refine stepOf_hypothesis_eq_ok_iff.2 ⟨_, ?_, rfl⟩
            refine Resolution.resolve_fresh_eq_ok_iff.2 ⟨formula, label, rfl, hwritten, ?_⟩
            rw [hdraft.tree]
            rfl
      | existing theoremLabel =>
          obtain ⟨formula, hyp, hformula, hbind, rfl⟩ :=
            Resolution.resolve_existing_eq_ok_iff.1 ht
          obtain ⟨hmem, -⟩ := Resolution.of_bindHypothesis hdb hbind
          have hblankless := hlabels hyp (hdb.of_mem_hypothesesOf hmem).1
          refine ⟨⟨hdraft.step, isWord?_written hblankless, ?_, rfl⟩, ?_⟩
          · rintro f ⟨⟩
            exact hdraft.formula formula hformula
          · refine stepOf_hypothesis_eq_ok_iff.2 ⟨_, ?_, rfl⟩
            exact Resolution.resolve_existing_eq_ok_iff.2 ⟨formula, hyp, rfl,
              Resolution.bindHypothesis_written hdb hdraft.ref hbind, rfl⟩

end Worksheet

/-! ### Renumbering -/

lemma Document.renumber_push (m : Renumbering) (doc : Document) (s : ProofStep) :
    (doc.push s).renumber m = (doc.renumber m).push (s.renumber m) := by
  simp [Document.renumber, push]

namespace Resolution

variable {db : Database} {target : Target} {doc : Document} {draft : HypothesisDraft}
  {s : HypothesisStep}

/-- With another number a draft becomes the same step with that number. -/
lemma resolve_withStep (hs : resolve db target doc draft = .ok s) (step : String) :
    resolve db target doc { draft with step } =
      .ok (.ofFields step s.ref s.formula s.tree s.bound) := by
  cases target with
  | fresh theoremLabel =>
      obtain ⟨formula, label, hformula, hlabel, rfl⟩ := resolve_fresh_eq_ok_iff.1 hs
      exact resolve_fresh_eq_ok_iff.2 ⟨formula, label, hformula, hlabel, rfl⟩
  | existing theoremLabel =>
      obtain ⟨formula, hyp, hformula, hbind, rfl⟩ := resolve_existing_eq_ok_iff.1 hs
      exact resolve_existing_eq_ok_iff.2 ⟨formula, hyp, hformula, hbind, rfl⟩

/-- The resolution sees no step number. -/
lemma resolve_renumber (hs : resolve db target doc draft = .ok s) (m : Renumbering)
    (step : String) :
    resolve db target (doc.renumber m) { draft with step } =
      .ok (.ofFields step s.ref s.formula s.tree s.bound) := by
  rw [resolve_eq_of_perm (.of_eq (doc.claims_renumber m))]
  exact resolve_withStep hs step

end Resolution

namespace Renumbering.Proper

variable {m : Renumbering} (hm : m.Proper)
include hm

lemma isNumber_apply {n : String} (hn : IsNumber n) : IsNumber (m.apply n) := by
  rw [apply]
  cases hnew : m.target? n with
  | none => exact hn
  | some new => exact (hm n new hnew).1

lemma startsWith_apply {n : String} (hn : startsWith '*' n.toList = false) :
    startsWith '*' (m.apply n).toList = false := by
  rw [apply]
  cases hnew : m.target? n with
  | none => exact hn
  | some new => exact (hm n new hnew).2.2

/-- A number that begins with an `h` afterwards was not renumbered. -/
lemma apply_eq_self_of_startsWith {n : String} (hn : startsWith 'h' (m.apply n).toList = true) :
    m.apply n = n := by
  rw [apply] at hn ⊢
  cases hnew : m.target? n with
  | none => rfl
  | some new =>
      rw [hnew, Option.getD_some, (hm n new hnew).2.1] at hn
      cases hn

/-- A renumbered step can be written. -/
lemma legible {s : ProofStep} (hs : s.draft.Legible) : (s.renumber m).draft.Legible := by
  cases s with
  | hypothesis s =>
      have hs : HypothesisDraft.Legible _ := hs
      refine HypothesisDraft.Legible.mk ?_ ?_ ?_ rfl
      · exact (s.renumber_step m).symm ▸ hm.isNumber_apply hs.step
      · exact (s.renumber_ref m).symm ▸ hs.ref
      · exact (s.renumber_formula m).symm ▸ hs.formula
  | derivation s =>
      have hs : DerivationDraft.Legible _ := hs
      refine DerivationDraft.Legible.mk ?_ ?_ ?_ ?_ ?_ ?_
      · exact (s.renumber_step m).symm ▸ hm.isNumber_apply hs.step
      · rw [s.renumber_hyps]
        intro n hn
        obtain ⟨old, hold, rfl⟩ := List.mem_map.1 hn
        exact hm.isNumber_apply (hs.hyps old hold)
      · exact (s.renumber_ref m).symm ▸ hs.ref
      · exact (s.renumber_formula m).symm ▸ hs.formula
      · exact (s.renumber_step m).symm ▸ hm.startsWith_apply hs.not_comment
      · rw [s.renumber_hyps, s.renumber_step]
        intro hnil hh
        have hself := hm.apply_eq_self_of_startsWith hh
        rw [hself] at hh ⊢
        exact hs.not_hypothesis (List.map_eq_nil_iff.1 hnil) hh

end Renumbering.Proper

lemma ProofStep.lineCount_eq_one {s : ProofStep} (hs : s.draft.Legible) (hrendered : s.Rendered) :
    Text.lineCount s.text = 1 := by
  rw [hrendered.text_eq]
  exact Text.lineCount_eq_one (lineFeed_not_mem_text hs)

/-- A renumbered step is laid out, if it can be written. -/
lemma ProofStep.layOut_renumber {s : ProofStep} (hs : s.draft.Legible) (hlayOut : s.layOut = s)
    {m : Renumbering} (hm : (s.renumber m).draft.Legible) :
    (s.renumber m).layOut = s.renumber m := by
  obtain ⟨hrendered, hlines⟩ := ProofStep.layOut_eq_self_iff.1 hlayOut
  have hrendered' := hrendered.renumber m
  refine ProofStep.layOut_eq_self_iff.2 ⟨hrendered', ?_⟩
  calc (s.renumber m).lineCount = s.lineCount := ProofStep.lineCount_renumber m s
    _ = Text.lineCount s.text := hlines
    _ = 1 := ProofStep.lineCount_eq_one hs hrendered
    _ = Text.lineCount (s.renumber m).text := (ProofStep.lineCount_eq_one hm hrendered').symm

namespace Worksheet

variable {db : Database} {target : Target} {doc : Document}

/-- **Renumbering commutes with resolving** the drafts of resolved steps. -/
lemma stepOf_renumber {m : Renumbering} (hm : m.Proper) {s : ProofStep} (hlegible : s.draft.Legible)
    (hs : stepOf db target doc s.draft = .ok s) :
    stepOf db target (doc.renumber m) (s.renumber m).draft = .ok (s.renumber m) := by
  have hlayOut := ProofStep.layOut_renumber hlegible (layOut_of_stepOf hs) (hm.legible hlegible)
  cases s with
  | derivation s => exact stepOf_derivation_eq_ok_iff.2 hlayOut
  | hypothesis s =>
      obtain ⟨t, ht, hst⟩ := stepOf_hypothesis_eq_ok_iff.1 hs
      obtain rfl := ProofStep.hypothesis.inj hst
      refine stepOf_hypothesis_eq_ok_iff.2 ⟨_, ?_, hlayOut⟩
      have hresolve := Resolution.resolve_renumber ht m (m.apply t.step)
      show Resolution.resolve db target (doc.renumber m)
        { step := (t.renumber m).step, ref := written (t.renumber m).ref,
          formula := some (t.renumber m).formula } = .ok (.ofFields (t.renumber m).step
            (t.renumber m).ref (t.renumber m).formula (t.renumber m).tree (t.renumber m).bound)
      rw [t.renumber_step, t.renumber_ref, t.renumber_formula, t.renumber_tree, t.renumber_bound]
      exact hresolve

/-- The drafts of the steps that drafts became become the same steps. -/
lemma loadSteps_draft (hdb : db.WellFormed)
    (hlabels : ∀ s ∈ db.statements, Blankless s.label.toList) {drafts : List StepDraft}
    (hd : ∀ d ∈ drafts, d.Legible) {final : Document}
    (h : loadSteps db target doc drafts = .ok final) :
    ∃ steps, final = ⟨doc.steps ++ steps⟩ ∧ (∀ s ∈ steps, s.draft.Legible) ∧
      loadSteps db target doc (steps.map (·.draft)) = .ok final := by
  induction drafts generalizing doc with
  | nil =>
      obtain rfl := loadSteps_nil_eq_ok_iff.1 h
      exact ⟨[], by rw [List.append_nil], by simp, h⟩
  | cons draft drafts ih =>
      obtain ⟨hdraft, hd⟩ := List.forall_mem_cons.1 hd
      obtain ⟨s, hs, h⟩ := loadSteps_cons_eq_ok_iff.1 h
      obtain ⟨hlegible, hagain⟩ := stepOf_draft hdb hlabels hdraft hs
      obtain ⟨steps, rfl, hsteps, hload⟩ := ih hd h
      refine ⟨s :: steps, ?_, List.forall_mem_cons.2 ⟨hlegible, hsteps⟩,
        loadSteps_cons_eq_ok_iff.2 ⟨s, hagain, hload⟩⟩
      rw [Document.push, List.append_assoc, List.singleton_append]

lemma loadSteps_renumber {m : Renumbering} (hm : m.Proper) {steps : List ProofStep}
    (hlegible : ∀ s ∈ steps, s.draft.Legible)
    (h : loadSteps db target doc (steps.map (·.draft)) = .ok ⟨doc.steps ++ steps⟩) :
    loadSteps db target (doc.renumber m) ((steps.map (·.renumber m)).map (·.draft)) =
      .ok (Document.renumber m ⟨doc.steps ++ steps⟩) := by
  induction steps generalizing doc with
  | nil =>
      rw [List.append_nil]
      rfl
  | cons s steps ih =>
      obtain ⟨hs, hlegible⟩ := List.forall_mem_cons.1 hlegible
      obtain ⟨hstep, h⟩ := of_loadSteps_cons h
      refine loadSteps_cons_eq_ok_iff.2 ⟨s.renumber m, stepOf_renumber hm hs hstep, ?_⟩
      rw [← Document.renumber_push, ih hlegible h, Document.push, List.append_assoc,
        List.singleton_append]

/-! ### Worksheets -/

/-- What stands in the text of a worksheet. -/
def draft (sheet : Worksheet) : WorksheetDraft :=
  ⟨some sheet.theoremLabel, sheet.locAfter, sheet.document.steps.map (·.draft)⟩

/-- The invariant of editing: a text can hold the draft of the worksheet, and the draft becomes
the worksheet. -/
structure Rereads (db : Database) (sheet : Worksheet) : Prop where
  legible : sheet.draft.Legible
  ofDraft : ofDraft db sheet.draft = .ok sheet

variable {sheet : Worksheet}

lemma rereads_of_load (hdb : db.WellFormed)
    (hlabels : ∀ s ∈ db.statements, Blankless s.label.toList) {text : String}
    (h : load db text = .ok sheet) : Rereads db sheet := by
  obtain ⟨draft, hdraft, h⟩ := load_eq_ok_iff.1 h
  have hlegible := legible_of_ofText? hdraft
  obtain ⟨label, hlabel, htarget, hloc, h⟩ := ofDraft_eq_ok_iff.1 h
  obtain rfl : sheet.theoremLabel = label := Target.label_of_ofLabel htarget
  obtain ⟨steps, hsteps, hall, hload⟩ := loadSteps_draft hdb hlabels hlegible.steps h
  have hdocument : sheet.document.steps = steps := congrArg (·.steps) hsteps
  rw [← hdocument] at hall hload
  have htheoremLabel := hlegible.theoremLabel
  have hlocAfter := hlegible.locAfter
  rw [hlabel] at htheoremLabel
  rw [hloc] at hlocAfter
  refine ⟨⟨htheoremLabel, hlocAfter, ?_⟩, ofDraft_eq_ok_iff.2 ⟨_, rfl, htarget, rfl, hload⟩⟩
  intro d hd
  obtain ⟨s, hs, rfl⟩ := List.mem_map.1 hd
  exact hall s hs

namespace Rereads

lemma legible_draft (h : Rereads db sheet) {s : ProofStep} (hs : s ∈ sheet.document.steps) :
    s.draft.Legible :=
  h.legible.steps _ (List.mem_map_of_mem hs)

lemma loadSteps_eq (h : Rereads db sheet) :
    Target.ofLabel db sheet.theoremLabel = .ok sheet.target ∧
      loadSteps db sheet.target {} (sheet.document.steps.map (·.draft)) = .ok sheet.document := by
  obtain ⟨label, hlabel, htarget, -, hload⟩ := ofDraft_eq_ok_iff.1 h.ofDraft
  obtain rfl : sheet.theoremLabel = label := Option.some.inj hlabel
  exact ⟨htarget, hload⟩

lemma layOut_step (h : Rereads db sheet) : ∀ s ∈ sheet.document.steps, s.layOut = s :=
  forall_mem_steps_of_loadSteps (fun _ _ _ _ hs => layOut_of_stepOf hs) (fun s hs => (by cases hs))
    h.loadSteps_eq.2

/-- Laying the worksheet out changes nothing. -/
lemma layOut_eq (h : Rereads db sheet) : sheet.layOut = sheet := by
  have hsteps : sheet.document.steps.map (·.layOut) = sheet.document.steps :=
    (List.map_congr_left h.layOut_step).trans (List.map_id _)
  rw [layOut, Document.layOut, hsteps]

lemma renumber (h : Rereads db sheet) {m : Renumbering} (hm : m.Proper) :
    Rereads db (sheet.renumber m) := by
  obtain ⟨htarget, hload⟩ := h.loadSteps_eq
  refine ⟨⟨h.legible.theoremLabel, h.legible.locAfter, fun d hd => ?_⟩,
    ofDraft_eq_ok_iff.2 ⟨_, rfl, htarget, rfl, ?_⟩⟩
  · obtain ⟨t, ht, rfl⟩ := List.mem_map.1 hd
    obtain ⟨s, hs, rfl⟩ := List.mem_map.1 ht
    exact hm.legible (h.legible_draft hs)
  · exact loadSteps_renumber hm (fun s hs => h.legible_draft hs) hload

end Rereads

/-- **Every worksheet that is loaded and edited rereads.** -/
lemma Edited.rereads (hdb : db.WellFormed)
    (hlabels : ∀ s ∈ db.statements, Blankless s.label.toList)
    (h : Edited db Renumbering.Proper sheet) : Rereads db sheet := by
  induction h with
  | load h => exact rereads_of_load hdb hlabels h
  | renumber _ hm ih => exact ih.renumber hm
  | layOut _ ih => exact ih.layOut_eq.symm ▸ ih

end Worksheet

end ProofSheet
