import ProofSheet.Proofs.Step.Rendering
import ProofSheet.Proofs.Worksheet.Loading

/-!
Settled worksheets: what the hypothesis steps of a worksheet are to the database.

* `HypothesisStep.StandsFor`, `HypothesisStep.Reserves`: what a hypothesis step is to a theorem of
  the database and to a new one;
* `Document.Settled`: the invariant of documents. The hypothesis steps of a theorem of the database
  stand for logical hypotheses of it, no two for the same one, and those of a new theorem only
  reserve their labels;
* `Document.Settled.step`, `Worksheet.settled_of_load`: one more step, and a whole load;
* `Document.Settled.grows`, `Document.Settled.renumber`, `Document.Settled.layOut`: what may happen
  to a worksheet afterwards.
-/

namespace ProofSheet

/-! ### What a hypothesis step is to the database -/

namespace HypothesisStep

/-- The step is bound to a logical hypothesis of a theorem, and agrees with it in everything that
the two have in common. -/
structure StandsFor (s : HypothesisStep) (db : Database) (theoremLabel : String)
    (hyp : Statement) : Prop where
  bound : s.bound = some hyp.id
  found : db.statement? hyp.id = some hyp
  logHyp : hyp.isLogHyp = true
  mem : hyp ∈ db.hypothesesOf theoremLabel
  ref : s.ref = hyp.label
  formula : s.formula = hyp.formula
  tree : s.tree = hyp.tree

/-- The step is bound to nothing, its label could name a statement, and its tree is flat. -/
structure Reserves (s : HypothesisStep) : Prop where
  bound : s.bound = none
  wellFormed : Label.isWellFormed s.ref = true
  not_reserved : Label.isReserved s.ref = false
  tree : s.tree = .flat ParseTree.wff s.formula

variable {s : HypothesisStep} {db db' : Database} {theoremLabel : String} {hyp : Statement}

lemma StandsFor.grows (h : s.StandsFor db theoremLabel hyp) (hdb : db.WellFormed)
    (hgrow : Database.Grows db db') : s.StandsFor db' theoremLabel hyp :=
  { h with
    found := hgrow.statement?_eq_some h.found
    mem := hgrow.mem_hypothesesOf hdb h.mem }

lemma StandsFor.renumber (h : s.StandsFor db theoremLabel hyp) (m : Renumbering) :
    (s.renumber m).StandsFor db theoremLabel hyp where
  bound := (s.renumber_bound m).trans h.bound
  found := h.found
  logHyp := h.logHyp
  mem := h.mem
  ref := (s.renumber_ref m).trans h.ref
  formula := (s.renumber_formula m).trans h.formula
  tree := (s.renumber_tree m).trans h.tree

lemma Reserves.renumber (h : s.Reserves) (m : Renumbering) : (s.renumber m).Reserves where
  bound := (s.renumber_bound m).trans h.bound
  wellFormed := (s.renumber_ref m).symm ▸ h.wellFormed
  not_reserved := (s.renumber_ref m).symm ▸ h.not_reserved
  tree := by rw [renumber_tree, renumber_formula, h.tree]

lemma StandsFor.layOut (h : s.StandsFor db theoremLabel hyp) :
    s.layOut.StandsFor db theoremLabel hyp :=
  { h with }

lemma Reserves.layOut (h : s.Reserves) : s.layOut.Reserves :=
  { h with }

end HypothesisStep

namespace Document

lemma hypotheses_renumber (m : Renumbering) (doc : Document) :
    (doc.renumber m).hypotheses = doc.hypotheses.map (·.renumber m) := by
  rw [hypotheses, renumber, List.filterMap_map, hypotheses, List.map_filterMap]
  refine List.filterMap_congr fun s _ => ?_
  cases s <;> rfl

lemma bound_renumber (m : Renumbering) (doc : Document) :
    (doc.renumber m).hypotheses.map (·.bound) = doc.hypotheses.map (·.bound) := by
  rw [hypotheses_renumber, List.map_map]
  exact List.map_congr_left fun s _ => s.renumber_bound m

lemma hypotheses_layOut (doc : Document) :
    doc.layOut.hypotheses = doc.hypotheses.map (·.layOut) := by
  rw [hypotheses, layOut, List.filterMap_map, hypotheses, List.map_filterMap]
  refine List.filterMap_congr fun s _ => ?_
  cases s <;> rfl

lemma bound_layOut (doc : Document) :
    doc.layOut.hypotheses.map (·.bound) = doc.hypotheses.map (·.bound) := by
  rw [hypotheses_layOut, List.map_map]
  rfl

/-! ### The invariant of documents -/

/-- The hypothesis steps are what the kind of the theorem asks for. -/
def Settled (doc : Document) (db : Database) : Target → Prop
  | .existing theoremLabel =>
    (∀ s ∈ doc.hypotheses, ∃ hyp, s.StandsFor db theoremLabel hyp) ∧
      (doc.hypotheses.map (·.bound)).Nodup
  | .fresh _ => ∀ s ∈ doc.hypotheses, s.Reserves

namespace Settled

variable {doc : Document} {db db' : Database} {target : Target}

lemma empty (db : Database) (target : Target) : Settled {} db target := by
  cases target with
  | fresh label => exact fun s hs => (by cases hs)
  | existing label => exact ⟨fun s hs => (by cases hs), List.nodup_nil⟩

lemma pushDerivation (h : doc.Settled db target) (s : DerivationStep) :
    (doc.push (.derivation s)).Settled db target := by
  cases target with
  | fresh label =>
      rw [Settled, hypotheses_push_derivation]
      exact h
  | existing label =>
      rw [Settled, hypotheses_push_derivation]
      exact h

/-- A step of a theorem of the database stands for a logical hypothesis that no step before it
stands for: the label of that one would be taken. -/
lemma pushExisting (hdb : db.WellFormed) {theoremLabel : String}
    (h : doc.Settled db (.existing theoremLabel)) {draft : HypothesisDraft} {s : HypothesisStep}
    (hs : Resolution.resolve db (.existing theoremLabel) doc draft = .ok s) :
    (doc.push (.hypothesis s)).Settled db (.existing theoremLabel) := by
  obtain ⟨formula, hyp, -, hbind, rfl⟩ := Resolution.resolve_existing_eq_ok_iff.1 hs
  obtain ⟨hmem, hformula, hfree, -⟩ := Resolution.of_bindHypothesis hdb hbind
  obtain ⟨hstatement, hlog⟩ := hdb.of_mem_hypothesesOf hmem
  obtain ⟨hall, hnodup⟩ := h
  have hnew : some hyp.id ∉ doc.hypotheses.map (·.bound) := by
    intro hbound
    obtain ⟨t, ht, hid⟩ := List.mem_map.1 hbound
    obtain ⟨other, hother⟩ := hall t ht
    have hsame : other.id = hyp.id := Option.some.inj (hother.bound.symm.trans hid)
    have heq := hdb.eq_of_id_eq (hdb.of_mem_hypothesesOf hother.mem).1 hstatement hsame
    refine ownsRef_eq_false_iff.1 hfree (.hypothesis t) (mem_hypotheses_iff.1 ht) ?_
    rw [ProofStep.ref?, hother.ref, heq]
  rw [Settled, hypotheses_push_hypothesis]
  refine ⟨fun t ht => ?_, ?_⟩
  · rcases List.mem_append.1 ht with ht | ht
    · exact hall t ht
    · rw [List.mem_singleton.1 ht]
      exact ⟨hyp, rfl, hdb.statement?_eq_some_iff.2 ⟨hstatement, rfl⟩, hlog, hmem, rfl,
        hformula.symm, rfl⟩
  · rw [List.map_append, List.map_singleton, List.nodup_append]
    refine ⟨hnodup, List.nodup_singleton _, ?_⟩
    rintro a ha b hb rfl
    rw [List.mem_singleton.1 hb] at ha
    exact hnew ha

lemma pushFresh {theoremLabel : String} (h : doc.Settled db (.fresh theoremLabel))
    {draft : HypothesisDraft} (htree : draft.tree = none) {s : HypothesisStep}
    (hs : Resolution.resolve db (.fresh theoremLabel) doc draft = .ok s) :
    (doc.push (.hypothesis s)).Settled db (.fresh theoremLabel) := by
  obtain ⟨formula, label, -, hreserve, rfl⟩ := Resolution.resolve_fresh_eq_ok_iff.1 hs
  obtain ⟨-, -, -, hwf, hreserved⟩ := Resolution.reserve_eq_ok_iff.1 hreserve
  rw [Settled, hypotheses_push_hypothesis]
  intro t ht
  rcases List.mem_append.1 ht with ht | ht
  · exact h t ht
  · rw [List.mem_singleton.1 ht, htree]
    exact ⟨rfl, hwf, hreserved, rfl⟩

/-- The step of the invariant. -/
lemma step (hdb : db.WellFormed) (h : doc.Settled db target) {draft : StepDraft}
    (hdraft : draft.Legible) {s : ProofStep}
    (hs : Worksheet.stepOf db target doc draft = .ok s) : (doc.push s).Settled db target := by
  cases draft with
  | derivation draft =>
      obtain rfl := Worksheet.stepOf_derivation_eq_ok_iff.1 hs
      exact h.pushDerivation _
  | hypothesis draft =>
      obtain ⟨t, ht, rfl⟩ := Worksheet.stepOf_hypothesis_eq_ok_iff.1 hs
      cases target with
      | fresh label => exact h.pushFresh hdraft.tree ht
      | existing label => exact h.pushExisting hdb ht

/-- A worksheet stays settled while its database grows. -/
lemma grows (h : doc.Settled db target) (hdb : db.WellFormed)
    (hgrow : Database.Grows db db') : doc.Settled db' target := by
  cases target with
  | fresh label => exact h
  | existing label =>
      obtain ⟨hall, hnodup⟩ := h
      refine ⟨fun s hs => ?_, hnodup⟩
      obtain ⟨hyp, hhyp⟩ := hall s hs
      exact ⟨hyp, hhyp.grows hdb hgrow⟩

lemma renumber (h : doc.Settled db target) (m : Renumbering) :
    (doc.renumber m).Settled db target := by
  cases target with
  | fresh label =>
      rw [Settled, hypotheses_renumber]
      intro s hs
      obtain ⟨t, ht, rfl⟩ := List.mem_map.1 hs
      exact (h t ht).renumber m
  | existing label =>
      obtain ⟨hall, hnodup⟩ := h
      rw [Settled, bound_renumber, hypotheses_renumber]
      refine ⟨fun s hs => ?_, hnodup⟩
      obtain ⟨t, ht, rfl⟩ := List.mem_map.1 hs
      obtain ⟨hyp, hhyp⟩ := hall t ht
      exact ⟨hyp, hhyp.renumber m⟩

lemma layOut (h : doc.Settled db target) : doc.layOut.Settled db target := by
  cases target with
  | fresh label =>
      rw [Settled, hypotheses_layOut]
      intro s hs
      obtain ⟨t, ht, rfl⟩ := List.mem_map.1 hs
      exact (h t ht).layOut
  | existing label =>
      obtain ⟨hall, hnodup⟩ := h
      rw [Settled, bound_layOut, hypotheses_layOut]
      refine ⟨fun s hs => ?_, hnodup⟩
      obtain ⟨t, ht, rfl⟩ := List.mem_map.1 hs
      obtain ⟨hyp, hhyp⟩ := hall t ht
      exact ⟨hyp, hhyp.layOut⟩

end Settled

end Document

/-! ### Worksheets -/

/-- **Every worksheet that is loaded is settled.** -/
lemma Worksheet.settled_of_load {db : Database} (hdb : db.WellFormed) {text : String}
    {sheet : Worksheet} (h : Worksheet.load db text = .ok sheet) :
    sheet.document.Settled db sheet.target := by
  obtain ⟨draft, hdraft, h⟩ := Worksheet.load_eq_ok_iff.1 h
  obtain ⟨label, -, -, -, h⟩ := Worksheet.ofDraft_eq_ok_iff.1 h
  refine Worksheet.loadSteps_induction (P := (·.Settled db sheet.target))
    (fun doc d hd s hdoc hs => ?_) (.empty db sheet.target) h
  exact hdoc.step hdb ((Reading.legible_of_ofText? hdraft).steps d hd) hs

end ProofSheet
