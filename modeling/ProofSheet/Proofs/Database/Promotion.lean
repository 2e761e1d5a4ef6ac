import ProofSheet.Proofs.Database.Growth

/-!
Adding a theorem together with its logical hypotheses.

* `Database.addProved`: the hypotheses in order, and then the theorem that rests on them;
* `Database.grows_addProved`: this makes the database grow;
* `Database.hypothesesOf_addProved`: **the theorem has the hypotheses that it was added with**;
* `Database.find?_addProved`: its label names a theorem;
* `Database.exists_foldlM_addLogHyp_iff`, `Database.exists_addProved_iff`: **when the additions
  succeed**, namely when all the labels are free and no two of them are the same.
-/

namespace ProofSheet.Database

/-- The database with logical hypotheses added in order, by their labels and formulas, and then
with a theorem that rests on them. -/
def addProved (db : Database) (hyps : List (String × Formula)) (label : String)
    (formula : Formula) : Except DatabaseError Database := do
  let db ← hyps.foldlM (fun db hyp => db.addLogHyp hyp.1 hyp.2) db
  db.addTheorem label (hyps.map (·.1)) formula

variable {db db' : Database} {hyps : List (String × Formula)} {label : String}
  {formula : Formula}

/-- Hypotheses that are added stand behind the statements that are there. -/
lemma of_foldlM_addLogHyp
    (h : hyps.foldlM (fun db hyp => db.addLogHyp hyp.1 hyp.2) db = .ok db') :
    Grows db db' ∧ ∃ added, db'.statements = db.statements ++ added ∧
      added.map (fun hyp => (hyp.label, hyp.formula)) = hyps ∧
        ∀ hyp ∈ added, hyp.isLogHyp = true := by
  induction hyps generalizing db with
  | nil =>
      cases h
      exact ⟨.refl, [], (List.append_nil _).symm, rfl, by simp⟩
  | cons hyp hyps ih =>
      rw [List.foldlM_cons] at h
      obtain ⟨db₁, hadd, h⟩ := Except.bind_eq_ok_iff.1 h
      obtain ⟨-, hdb₁⟩ := addStatement_eq_ok_iff.1 hadd
      obtain ⟨hgrow, added, hstatements, hmap, hlog⟩ := ih h
      refine ⟨.head (.logHyp hyp.1 hyp.2 hadd) hgrow,
        ⟨db.size, hyp.1, hyp.2, .logHyp⟩ :: added, ?_, ?_, ?_⟩
      · rw [hstatements, hdb₁, List.append_assoc, List.singleton_append]
      · rw [List.map_cons, hmap]
      · exact List.forall_mem_cons.2 ⟨rfl, hlog⟩

/-- Labels of hypotheses that are there name these hypotheses. -/
lemma map_logHypId? (hdb : db.WellFormed) {added : List Statement}
    (h : ∀ hyp ∈ added, hyp ∈ db.statements ∧ hyp.isLogHyp = true) :
    added.map (fun hyp => db.logHypId? hyp.label) = (added.map (·.id)).map some := by
  rw [List.map_map]
  refine List.map_congr_left fun hyp hhyp => ?_
  obtain ⟨hmem, hlog⟩ := h hyp hhyp
  exact logHypId?_eq_some_iff.2 ⟨hyp, hdb.find?_eq_some_iff.2 ⟨hmem, rfl⟩, hlog, rfl⟩

/-- What is added, and where it stands. -/
lemma of_addProved (hdb : db.WellFormed) (h : db.addProved hyps label formula = .ok db') :
    Grows db db' ∧ ∃ added : List Statement,
      added.map (fun hyp => (hyp.label, hyp.formula)) = hyps ∧
        (∀ hyp ∈ added, hyp ∈ db'.statements) ∧
        ∃ s, db'.find? label = some s ∧ s.kind = .provable (added.map (·.id)) := by
  obtain ⟨db₁, hfold, h⟩ := Except.bind_eq_ok_iff.1 h
  obtain ⟨hgrow, added, hstatements, rfl, hlog⟩ := of_foldlM_addLogHyp hfold
  have hwf := hdb.grows hgrow
  have hadds : Adds db₁ db' := .provable label _ formula h
  have hmem : ∀ hyp ∈ added, hyp ∈ db₁.statements := fun hyp hhyp =>
    hstatements ▸ List.mem_append_right _ hhyp
  obtain ⟨ids, hids, h⟩ := addTheorem_eq_ok_iff.1 h
  -- each of the labels finds the hypothesis that was added with it
  have hsome : ids.map some = (added.map (·.id)).map some := by
    rw [← hids, List.map_map, List.map_map]
    exact map_logHypId? hwf fun hyp hhyp => ⟨hmem hyp hhyp, hlog hyp hhyp⟩
  obtain rfl := List.map_injective_iff.2 (fun _ _ => Option.some.inj) hsome
  obtain ⟨-, rfl⟩ := addStatement_eq_ok_iff.1 h
  refine ⟨hgrow.tail hadds, added, rfl, fun hyp hhyp => List.mem_append_left _ (hmem hyp hhyp),
    ⟨db₁.size, label, formula, .provable (added.map (·.id))⟩, ?_, rfl⟩
  exact (hwf.adds hadds).find?_eq_some_iff.2 ⟨by simp, rfl⟩

lemma grows_addProved (hdb : db.WellFormed) (h : db.addProved hyps label formula = .ok db') :
    Grows db db' :=
  (of_addProved hdb h).1

/-- The label names a theorem afterwards. -/
lemma find?_addProved (hdb : db.WellFormed) (h : db.addProved hyps label formula = .ok db') :
    ∃ s, db'.find? label = some s ∧ s.isTheorem = true := by
  obtain ⟨-, added, -, -, s, hfind, hkind⟩ := of_addProved hdb h
  refine ⟨s, hfind, ?_⟩
  rw [Statement.isTheorem, Statement.hyps?, hkind]
  rfl

/-- **The theorem has the hypotheses that it was added with**, in their order. -/
lemma hypothesesOf_addProved (hdb : db.WellFormed)
    (h : db.addProved hyps label formula = .ok db') :
    (db'.hypothesesOf label).map (fun hyp => (hyp.label, hyp.formula)) = hyps := by
  obtain ⟨hgrow, added, hmap, hmem, s, hfind, hkind⟩ := of_addProved hdb h
  have hfound := (hdb.grows hgrow).filterMap_statement? hmem
  rw [hypothesesOf, hfind, Option.bind_some, Statement.hyps?, hkind, ← hmap]
  exact congrArg _ hfound

/-! ### When the additions succeed -/

/-- Hypotheses can be added in order if and only if their labels are free and distinct. -/
lemma exists_foldlM_addLogHyp_iff :
    (∃ db', hyps.foldlM (fun db hyp => db.addLogHyp hyp.1 hyp.2) db = .ok db') ↔
      (hyps.map (·.1)).Nodup ∧ ∀ name ∈ hyps.map (·.1), db.contains name = false := by
  induction hyps generalizing db with
  | nil => exact ⟨fun _ => ⟨List.nodup_nil, by simp⟩, fun _ => ⟨db, rfl⟩⟩
  | cons hyp hyps ih =>
      rw [List.foldlM_cons, List.map_cons, List.nodup_cons, List.forall_mem_cons]
      simp only [Except.bind_eq_ok_iff, addLogHyp, addStatement_eq_ok_iff]
      constructor
      · rintro ⟨db', db₁, ⟨hfree, rfl⟩, h⟩
        obtain ⟨hnodup, hall⟩ := ih.1 ⟨db', h⟩
        simp only [contains_append_statement, Bool.or_eq_false_iff, beq_eq_false_iff_ne] at hall
        exact ⟨⟨fun hmem => (hall hyp.1 hmem).2 rfl, hnodup⟩, hfree,
          fun name hname => (hall name hname).1⟩
      · rintro ⟨⟨hnew, hnodup⟩, hfree, hall⟩
        have hrest : ∀ name ∈ hyps.map (·.1), contains { db with statements := db.statements ++
            [⟨db.size, hyp.1, hyp.2, .logHyp⟩] } name = false := fun name hname => by
          rw [contains_append_statement, hall name hname, Bool.false_or, beq_eq_false_iff_ne]
          rintro rfl
          exact hnew hname
        obtain ⟨db', h⟩ := ih.2 ⟨hnodup, hrest⟩
        exact ⟨db', _, ⟨hfree, rfl⟩, h⟩

/-- The words that are taken once hypotheses were added. -/
lemma contains_foldlM_addLogHyp
    (h : hyps.foldlM (fun db hyp => db.addLogHyp hyp.1 hyp.2) db = .ok db') (word : String) :
    db'.contains word = true ↔ db.contains word = true ∨ word ∈ hyps.map (·.1) := by
  induction hyps generalizing db with
  | nil =>
      cases h
      simp
  | cons hyp hyps ih =>
      rw [List.foldlM_cons] at h
      obtain ⟨db₁, hadd, h⟩ := Except.bind_eq_ok_iff.1 h
      obtain ⟨-, rfl⟩ := addStatement_eq_ok_iff.1 hadd
      rw [ih h, contains_append_statement, Bool.or_eq_true, beq_iff_eq, List.map_cons,
        List.mem_cons, or_assoc]

/-- **When the additions succeed**: the hypotheses and the theorem need labels that are free, no
two of them the same. -/
lemma exists_addProved_iff (hdb : db.WellFormed) :
    (∃ db', db.addProved hyps label formula = .ok db') ↔
      (label :: hyps.map (·.1)).Nodup ∧
        ∀ name ∈ label :: hyps.map (·.1), db.contains name = false := by
  rw [List.nodup_cons, List.forall_mem_cons]
  constructor
  · rintro ⟨db', h⟩
    obtain ⟨db₁, hadded, h⟩ := Except.bind_eq_ok_iff.1 h
    obtain ⟨hnodup, hall⟩ := exists_foldlM_addLogHyp_iff.1 ⟨db₁, hadded⟩
    obtain ⟨ids, -, h⟩ := addTheorem_eq_ok_iff.1 h
    have hfree := (addStatement_eq_ok_iff.1 h).1
    rw [← Bool.not_eq_true, contains_foldlM_addLogHyp hadded, not_or, Bool.not_eq_true] at hfree
    exact ⟨⟨hfree.2, hnodup⟩, hfree.1, hall⟩
  · rintro ⟨⟨hnew, hnodup⟩, hfree, hall⟩
    obtain ⟨db₁, hadded⟩ := exists_foldlM_addLogHyp_iff.2 ⟨hnodup, hall⟩
    obtain ⟨hgrow, added, hstatements, rfl, hlog⟩ := of_foldlM_addLogHyp hadded
    have hids := map_logHypId? (hdb.grows hgrow) fun hyp hhyp =>
      ⟨hstatements ▸ List.mem_append_right db.statements hhyp, hlog hyp hhyp⟩
    have hlabel : db₁.contains label = false := by
      rw [← Bool.not_eq_true, contains_foldlM_addLogHyp hadded, not_or, Bool.not_eq_true]
      exact ⟨hfree, hnew⟩
    refine ⟨_, Except.bind_eq_ok_iff.2 ⟨db₁, hadded, addTheorem_eq_ok_iff.2
      ⟨added.map (·.id), ?_, addStatement_eq_ok_iff.2 ⟨hlabel, rfl⟩⟩⟩⟩
    rw [List.map_map, List.map_map]
    exact hids

end ProofSheet.Database
