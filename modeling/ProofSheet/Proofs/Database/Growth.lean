import ProofSheet.Proofs.Database.Formation

/-!
What growth keeps.  Statements are only ever put behind those that are there, so a statement that
can be found in a database is found in every larger one, and the hypotheses of a theorem stay
what they are.
-/

namespace ProofSheet.Database

variable {db db' : Database}

lemma Adds.statements_prefix (h : Adds db db') : db.statements <+: db'.statements := by
  obtain ⟨word, -, rfl⟩ | ⟨label, formula, kind, -, -, rfl⟩ := h.cases
  · exact List.prefix_rfl
  · exact List.prefix_append _ _

namespace Grows

lemma statements_prefix (h : Grows db db') : db.statements <+: db'.statements := by
  induction h with
  | refl => exact List.prefix_rfl
  | tail _ hadd ih => exact ih.trans hadd.statements_prefix

/-- A label keeps its statement. -/
lemma find?_eq_some (h : Grows db db') {label : String} {s : Statement}
    (hs : db.find? label = some s) : db'.find? label = some s := by
  obtain ⟨more, hmore⟩ := h.statements_prefix
  rw [find?, ← hmore, List.find?_append]
  rw [find?] at hs
  rw [hs, Option.some_or]

/-- An identity keeps its statement. -/
lemma statement?_eq_some (h : Grows db db') {id : StatementId} {s : Statement}
    (hs : db.statement? id = some s) : db'.statement? id = some s := by
  obtain ⟨more, hmore⟩ := h.statements_prefix
  obtain ⟨hlt, -⟩ := List.getElem?_eq_some_iff.1 hs
  rw [statement?, ← hmore, List.getElem?_append_left hlt]
  exact hs

/-- **A theorem keeps its hypotheses**, in their order. -/
lemma hypothesesOf_eq (h : Grows db db') (hdb : db.WellFormed) {label : String} {s : Statement}
    (hs : db.find? label = some s) : db'.hypothesesOf label = db.hypothesesOf label := by
  rw [hypothesesOf, hypothesesOf, hs, h.find?_eq_some hs]
  cases hkind : s.kind with
  | logHyp => simp [Statement.hyps?, hkind]
  | axiomatic => simp [Statement.hyps?, hkind]
  | provable ids =>
      simp only [Option.bind_some, Statement.hyps?, hkind]
      refine List.filterMap_congr fun id hid => ?_
      obtain ⟨-, hyp, hmem, hhyp, -⟩ :=
        hdb.hyps s (List.mem_of_find?_eq_some hs) ids hkind id hid
      have hfound : db.statement? id = some hyp := hdb.statement?_eq_some_iff.2 ⟨hmem, hhyp⟩
      rw [hfound, h.statement?_eq_some hfound]

lemma mem_hypothesesOf (h : Grows db db') (hdb : db.WellFormed) {label : String}
    {hyp : Statement} (hhyp : hyp ∈ db.hypothesesOf label) : hyp ∈ db'.hypothesesOf label := by
  obtain ⟨s, ids, hfind, -⟩ := mem_hypothesesOf_iff.1 hhyp
  rw [h.hypothesesOf_eq hdb hfind]
  exact hhyp

end Grows

end ProofSheet.Database
