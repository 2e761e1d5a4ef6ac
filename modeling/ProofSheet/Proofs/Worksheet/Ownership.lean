import ProofSheet.Proofs.Worksheet.Editing
import ProofSheet.Proofs.Worksheet.Settlement

/-!
Who owns a reference label.  The resolution asks two questions of a document: whether some step has
a label, and whether some hypothesis step is bound to a logical hypothesis.

* `Document.mem_duplicateRefs_iff`: the pairs of positions whose steps share a label;
* `Document.Unclashing`: the invariant of the loading. No hypothesis step has the label of a step
  before it;
* `Document.Unclashing.mem_duplicateRefs_iff_derivation`: where two steps share a label, the later
  one is a derivation step;
* `Document.Settled.binds_iff`: in a worksheet for a theorem of the database, a statement is bound
  exactly when some hypothesis step has its label;
* `Document.Settled.owner_of_resolve_eq_error`: whose fault it is when a draft without a label is
  refused because of a label;
* `Worksheet.ownership_of_edits`: **both questions have one answer**, however the worksheet is
  edited.
-/

namespace ProofSheet

/-! ### Labels that two steps share -/

namespace List

lemma mem_drop_zipIdx_iff {α : Type} {l : List α} {n i : Nat} {a : α} :
    (a, i) ∈ l.zipIdx.drop n ↔ n ≤ i ∧ l[i]? = some a := by
  rw [List.mem_iff_getElem?]
  simp only [List.getElem?_drop, List.getElem?_zipIdx, Option.map_eq_some_iff, Prod.mk.injEq,
    Nat.zero_add]
  constructor
  · rintro ⟨k, b, hb, rfl, rfl⟩
    exact ⟨Nat.le_add_right n k, hb⟩
  · rintro ⟨hle, ha⟩
    exact ⟨i - n, a, by rwa [Nat.add_sub_cancel' hle], rfl, Nat.add_sub_cancel' hle⟩

end List

namespace Document

variable {doc doc' : Document}

lemma mem_duplicateRefs_iff {i j : Nat} :
    (i, j) ∈ doc.duplicateRefs ↔
      i < j ∧ ∃ s t label, doc.steps[i]? = some s ∧ doc.steps[j]? = some t ∧
        s.ref? = some label ∧ t.ref? = some label := by
  rw [duplicateRefs, List.mem_flatMap]
  constructor
  · rintro ⟨⟨s, k⟩, hs, h⟩
    have hs := List.mk_mem_zipIdx_iff_getElem?.1 hs
    cases hlabel : s.ref? with
    | none => simp [hlabel] at h
    | some label =>
        simp only [hlabel, List.mem_filterMap] at h
        obtain ⟨⟨t, l⟩, hlater, h⟩ := h
        obtain ⟨hlt, ht⟩ := List.mem_drop_zipIdx_iff.1 hlater
        obtain ⟨hown, hpair⟩ := Option.ite_none_right_eq_some.1 h
        cases hpair
        exact ⟨hlt, s, t, label, hs, ht, hlabel, by simpa [ProofStep.hasRef] using hown⟩
  · rintro ⟨hlt, s, t, label, hs, ht, hlabel, hown⟩
    refine ⟨(s, i), List.mk_mem_zipIdx_iff_getElem?.2 hs, ?_⟩
    simp only [hlabel, List.mem_filterMap]
    exact ⟨(t, j), List.mem_drop_zipIdx_iff.2 ⟨hlt, ht⟩, by simp [ProofStep.hasRef, hown]⟩

/-- No hypothesis step has the label of a step before it. -/
def Unclashing (doc : Document) : Prop :=
  doc.claims.Pairwise fun earlier later => later.2.isSome = true → earlier.1 ≠ later.1

namespace Unclashing

lemma empty : Unclashing {} :=
  List.Pairwise.nil

lemma pushDerivation (h : doc.Unclashing) (s : DerivationStep) :
    (doc.push (.derivation s)).Unclashing := by
  rw [Unclashing, claims_push, List.pairwise_append]
  refine ⟨h, List.pairwise_singleton _ _, fun earlier _ later hlater hsome => ?_⟩
  rw [List.mem_singleton.1 hlater] at hsome
  cases hsome

/-- A hypothesis step whose label no step has. -/
lemma pushHypothesis (h : doc.Unclashing) {s : HypothesisStep}
    (hfree : doc.ownsRef s.ref = false) : (doc.push (.hypothesis s)).Unclashing := by
  rw [Unclashing, claims_push, List.pairwise_append]
  refine ⟨h, List.pairwise_singleton _ _, fun earlier hearlier later hlater _ => ?_⟩
  obtain ⟨t, ht, rfl⟩ := List.mem_map.1 hearlier
  rw [List.mem_singleton.1 hlater]
  exact ownsRef_eq_false_iff.1 hfree t ht

/-- The step of the invariant. -/
lemma step (h : doc.Unclashing) {db : Database} {target : Target} {draft : StepDraft}
    {s : ProofStep} (hs : Worksheet.stepOf db target doc draft = .ok s) :
    (doc.push s).Unclashing := by
  cases draft with
  | derivation draft =>
      obtain rfl := Worksheet.stepOf_derivation_eq_ok_iff.1 hs
      exact h.pushDerivation _
  | hypothesis draft =>
      obtain ⟨t, ht, rfl⟩ := Worksheet.stepOf_hypothesis_eq_ok_iff.1 hs
      exact h.pushHypothesis (Resolution.ownsRef_eq_false_of_resolve ht)

lemma congr (h : doc.Unclashing) (hclaims : doc'.claims = doc.claims) : doc'.Unclashing := by
  rw [Unclashing, hclaims]
  exact h

/-- The steps before a hypothesis step do not have its label. -/
lemma ownsRef_eq_false (h : doc.Unclashing) {before after : List ProofStep} {s : HypothesisStep}
    (hsplit : doc.steps = before ++ .hypothesis s :: after) :
    ownsRef ⟨before⟩ s.ref = false := by
  rw [Unclashing, claims, hsplit, List.map_append, List.pairwise_append] at h
  refine ownsRef_eq_false_iff.2 fun t ht => ?_
  exact h.2.2 t.claim (List.mem_map_of_mem ht) (ProofStep.claim (.hypothesis s))
    List.mem_cons_self rfl

/-- Where two steps share a label, the later one is a derivation step. -/
lemma mem_duplicateRefs_iff_derivation (h : doc.Unclashing) {i j : Nat} :
    (i, j) ∈ doc.duplicateRefs ↔
      i < j ∧ ∃ s t label, doc.steps[i]? = some s ∧ doc.steps[j]? = some (.derivation t) ∧
        s.ref? = some label ∧ t.ref = some label := by
  rw [mem_duplicateRefs_iff]
  refine and_congr_right fun hlt => exists_congr fun s => ?_
  constructor
  · rintro ⟨t, label, hs, ht, hlabel, hown⟩
    cases t with
    | derivation t => exact ⟨t, label, hs, ht, hlabel, hown⟩
    | hypothesis t =>
        obtain ⟨hj, htj⟩ := List.getElem?_eq_some_iff.1 ht
        have hsplit := (List.take_append_drop j doc.steps).symm
        rw [List.drop_eq_getElem_cons hj, htj] at hsplit
        refine absurd (hlabel.trans hown.symm) ?_
        refine ownsRef_eq_false_iff.1 (h.ownsRef_eq_false hsplit) s ?_
        exact List.mem_of_getElem? ((List.getElem?_take_of_lt hlt).trans hs)
  · rintro ⟨t, label, hs, ht, hlabel, hown⟩
    exact ⟨.derivation t, label, hs, ht, hlabel, hown⟩

end Unclashing

/-! ### Labels and what they are bound to -/

namespace Settled

variable {db : Database} {theoremLabel : String}

/-- A worksheet for a theorem of the database is settled whatever its drafts look like. -/
lemma of_loadSteps (hdb : db.WellFormed) {drafts : List StepDraft}
    (h : Worksheet.loadSteps db (.existing theoremLabel) {} drafts = .ok doc) :
    doc.Settled db (.existing theoremLabel) := by
  refine Worksheet.loadSteps_induction (P := (·.Settled db (.existing theoremLabel)))
    (fun doc draft _ s hdoc hs => ?_) (.empty db _) h
  cases draft with
  | derivation draft =>
      obtain rfl := Worksheet.stepOf_derivation_eq_ok_iff.1 hs
      exact hdoc.pushDerivation _
  | hypothesis draft =>
      obtain ⟨t, ht, rfl⟩ := Worksheet.stepOf_hypothesis_eq_ok_iff.1 hs
      exact hdoc.pushExisting hdb ht

/-- A statement is bound exactly when some hypothesis step has its label. -/
lemma binds_iff (hdb : db.WellFormed) (h : doc.Settled db (.existing theoremLabel))
    {a : Statement} (ha : a ∈ db.statements) :
    doc.binds a.id = true ↔ ∃ s ∈ doc.hypotheses, s.ref = a.label := by
  rw [Document.binds_iff, List.mem_map]
  refine exists_congr fun s => and_congr_right fun hs => ?_
  obtain ⟨hyp, hhyp⟩ := h.1 s hs
  obtain ⟨hmem, -⟩ := hdb.of_mem_hypothesesOf hhyp.mem
  rw [hhyp.bound, hhyp.ref, Option.some.injEq]
  constructor
  · intro hid
    rw [hdb.eq_of_id_eq hmem ha hid]
  · intro hlabel
    rw [hdb.eq_of_label_eq hmem ha hlabel]

/-- When a draft without a label is refused because of a label, a derivation step has the label,
and no hypothesis step has it. -/
lemma owner_of_resolve_eq_error (hdb : db.WellFormed)
    (h : doc.Settled db (.existing theoremLabel)) {draft : HypothesisDraft} {e : LoadError}
    {label : String} (href : draft.ref = none)
    (hresolve : Resolution.resolve db (.existing theoremLabel) doc draft = .error e)
    (hfault : e.fault = .duplicateRefLabel label) :
    (∀ s ∈ doc.hypotheses, s.ref ≠ label) ∧
      ∃ s, .derivation s ∈ doc.steps ∧ s.ref = some label := by
  obtain ⟨formula, hyp, hmatch, rfl, howned⟩ :=
    Resolution.of_resolve_eq_duplicateRefLabel href hresolve hfault
  have hfound := Resolution.matchFormula_eq_ok_iff.1 hmatch
  obtain ⟨hmem, -⟩ := hdb.of_mem_hypothesesOf (List.mem_of_find?_eq_some hfound)
  have hnot : ∀ s ∈ doc.hypotheses, s.ref ≠ hyp.label := by
    intro s hs hlabel
    have hbinds := (h.binds_iff hdb hmem).2 ⟨s, hs, hlabel⟩
    simpa [hbinds] using List.find?_some hfound
  refine ⟨hnot, ?_⟩
  obtain ⟨s, hs, hlabel⟩ := ownsRef_iff.1 howned
  cases s with
  | derivation s => exact ⟨s, hs, hlabel⟩
  | hypothesis s =>
      exact absurd (Option.some.inj hlabel) (hnot s (mem_hypotheses_iff.2 hs))

end Settled

end Document

/-! ### Worksheets -/

namespace Worksheet

variable {db : Database} {draft : WorksheetDraft} {sheet edited : Worksheet}

lemma settled_of_edits (hedits : sheet.Edits edited) {target : Target}
    (h : sheet.document.Settled db target) : edited.document.Settled db target := by
  induction hedits with
  | refl => exact h
  | renumber _ m ih => exact ih.renumber m
  | layOut _ ih => exact ih.layOut

/-- **What is claimed by label is what is claimed by identity.** Load any draft, and edit the
worksheet at will. Then no hypothesis step has the label of a step before it, so that of two steps
that share a label the later one is a derivation step. If the theorem is one of the database, a
statement is bound exactly when some hypothesis step has its label, and a draft without a label is
refused because of a label only if that is the label of a derivation step, and of no hypothesis
step. -/
theorem ownership_of_edits (hdb : db.Built) (h : ofDraft db draft = .ok sheet)
    (hedits : sheet.Edits edited) :
    (∀ i j, (i, j) ∈ edited.document.duplicateRefs ↔
      i < j ∧ ∃ s t label, edited.document.steps[i]? = some s ∧
        edited.document.steps[j]? = some (.derivation t) ∧
          s.ref? = some label ∧ t.ref = some label) ∧
    (∀ before s after, edited.document.steps = before ++ .hypothesis s :: after →
      Document.ownsRef ⟨before⟩ s.ref = false) ∧
    ∀ theoremLabel, edited.target = .existing theoremLabel →
      (∀ a ∈ db.statements, edited.document.binds a.id = true ↔
        ∃ s ∈ edited.document.hypotheses, s.ref = a.label) ∧
      ∀ d e label, d.ref = none →
        Resolution.resolve db edited.target edited.document d = .error e →
          e.fault = .duplicateRefLabel label →
            (∀ s ∈ edited.document.hypotheses, s.ref ≠ label) ∧
              ∃ s, .derivation s ∈ edited.document.steps ∧ s.ref = some label := by
  obtain ⟨-, -, -, -, hsteps⟩ := ofDraft_eq_ok_iff.1 h
  have hclash : edited.document.Unclashing :=
    (loadSteps_induction (P := Document.Unclashing) (fun _ _ _ _ hdoc hs => hdoc.step hs)
      .empty hsteps).congr hedits.claims_eq
  refine ⟨fun i j => hclash.mem_duplicateRefs_iff_derivation,
    fun before s after => hclash.ownsRef_eq_false, fun theoremLabel htarget => ?_⟩
  rw [htarget]
  rw [← hedits.target_eq, htarget] at hsteps
  have hsettled := settled_of_edits hedits (.of_loadSteps hdb.wellFormed hsteps)
  exact ⟨fun a ha => hsettled.binds_iff hdb.wellFormed ha,
    fun d e label href => hsettled.owner_of_resolve_eq_error hdb.wellFormed href⟩

/-- Derivation steps take the labels `a` and `b` of both hypotheses of a theorem behind a step that
is bound to `a`. The first of them shares its label with that step, and because of the second one a
draft with the formula of `b` is refused, though no step is bound to `b`. -/
theorem ownership_of_edits_two_derivations :
    ∃ db sheet, db.Built ∧
      ofDraft db ⟨some "t", none, [
        .hypothesis ⟨"1", none, some ⟨["x"]⟩, none, {}⟩,
        .derivation ⟨"2", ["1"], some "a", none, {}⟩,
        .derivation ⟨"3", ["1"], some "b", none, {}⟩]⟩ = .ok sheet ∧
      ∃ edited, sheet.Edits edited ∧
        edited.document.duplicateRefs = [(0, 1)] ∧
        (∃ s, edited.document.steps[1]? = some (.derivation s) ∧ s.ref = some "a") ∧
        edited.document.binds 1 = false ∧
        ∃ e, Resolution.resolve db edited.target edited.document
            ⟨"4", none, some ⟨["y"]⟩, none, {}⟩ = .error e ∧
          e.fault = .duplicateRefLabel "b" ∧
          (∀ s ∈ edited.document.hypotheses, s.ref ≠ "b") ∧
            ∃ s, .derivation s ∈ edited.document.steps ∧ s.ref = some "b" := by
  let db : Database := ⟨[⟨0, "a", ⟨["x"]⟩, .logHyp⟩, ⟨1, "b", ⟨["y"]⟩, .logHyp⟩,
    ⟨2, "t", ⟨["z"]⟩, .provable [0, 1]⟩], []⟩
  have hdb : db.Built :=
    ((Relation.ReflTransGen.single (.logHyp "a" ⟨["x"]⟩ rfl)).tail (.logHyp "b" ⟨["y"]⟩ rfl)).tail
      (.provable "t" ["a", "b"] ⟨["z"]⟩ rfl)
  obtain ⟨sheet, hsheet⟩ : ∃ sheet, ofDraft db ⟨some "t", none, [
      .hypothesis ⟨"1", none, some ⟨["x"]⟩, none, {}⟩,
      .derivation ⟨"2", ["1"], some "a", none, {}⟩,
      .derivation ⟨"3", ["1"], some "b", none, {}⟩]⟩ = .ok sheet := ⟨_, rfl⟩
  let edited : Worksheet := (sheet.renumber ⟨[("1", "5")]⟩).layOut
  have hedits : sheet.Edits edited := (Edits.refl.renumber _).layOut
  have hduplicate : edited.document.duplicateRefs = [(0, 1)] := by
    cases hsheet
    rfl
  have htarget : edited.target = .existing "t" := by
    cases hsheet
    rfl
  have hrefused : Resolution.resolve db edited.target edited.document
      ⟨"4", none, some ⟨["y"]⟩, none, {}⟩ = .error ⟨"t", "4", .duplicateRefLabel "b", 1⟩ := by
    cases hsheet
    rfl
  obtain ⟨hpairs, -, hexisting⟩ := ownership_of_edits hdb hsheet hedits
  obtain ⟨hbinds, howner⟩ := hexisting "t" htarget
  obtain ⟨hnone, hsome⟩ := howner _ _ "b" rfl hrefused rfl
  obtain ⟨-, s, t, label, hs, ht, hlabel, hown⟩ := (hpairs 0 1).1 (hduplicate ▸ List.mem_cons_self)
  have hfirst : label = "a" := by
    cases hsheet
    cases hs
    exact (Option.some.inj hlabel).symm
  refine ⟨db, sheet, hdb, hsheet, edited, hedits, hduplicate, ⟨t, ht, hfirst ▸ hown⟩, ?_, _,
    hrefused, rfl, hnone, hsome⟩
  rw [← Bool.not_eq_true, hbinds ⟨1, "b", ⟨["y"]⟩, .logHyp⟩ (by decide)]
  rintro ⟨s, hs, hlabel⟩
  exact hnone s hs hlabel

end Worksheet

end ProofSheet
