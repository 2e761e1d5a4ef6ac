import Mathlib.Data.List.Nodup
import Mathlib.Logic.Relation
import ProofSheet.Database.Growth
import ProofSheet.Proofs.Refusal

/-!
Databases that were built up by additions.

* `Database.Adds`, `Database.Grows`, `Database.Built`: one addition, any number of them, and the
  databases that additions lead to from nothing;
* `Database.Adds.cases`: what one addition can do;
* `Database.WellFormed`: the invariant of the additions. Identities are positions, labels are
  distinct, no label is a symbol, and a theorem rests on logical hypotheses that stand before it;
* `Database.contains_append_symbol`, `Database.contains_append_statement`: the words that are taken
  after an addition;
* `Database.Built.wellFormed`: every database that was built is well-formed.
-/

namespace ProofSheet.Database

/-! ### Additions -/

/-- One addition: of a symbol, or of a statement of one of the three kinds. -/
inductive Adds (db : Database) : Database → Prop
  | symbol {db' : Database} (word : String) (h : db.addSymbol word = .ok db') : Adds db db'
  | logHyp {db' : Database} (label : String) (formula : Formula)
      (h : db.addLogHyp label formula = .ok db') : Adds db db'
  | axiomatic {db' : Database} (label : String) (formula : Formula)
      (h : db.addAxiomatic label formula = .ok db') : Adds db db'
  | provable {db' : Database} (label : String) (hyps : List String) (formula : Formula)
      (h : db.addTheorem label hyps formula = .ok db') : Adds db db'

/-- The second database is the first one after any number of additions. -/
abbrev Grows : Database → Database → Prop :=
  Relation.ReflTransGen Adds

/-- The database was built by additions from the empty one. -/
abbrev Built (db : Database) : Prop :=
  Grows {} db

/-! ### When an addition succeeds -/

lemma contains_eq_false_iff {db : Database} {word : String} :
    db.contains word = false ↔ db.find? word = none ∧ db.hasSymbol word = false := by
  rw [contains, Bool.or_eq_false_iff, Option.isSome_eq_false_iff, Option.isNone_iff_eq_none]

lemma addSymbol_eq_ok_iff {db db' : Database} {word : String} :
    db.addSymbol word = .ok db' ↔
      db.contains word = false ∧ db' = { db with symbols := db.symbols ++ [word] } := by
  rw [contains_eq_false_iff, addSymbol]
  cases hf : db.find? word <;> cases hs : db.hasSymbol word <;> simp [eq_comm]

lemma addStatement_eq_ok_iff {db db' : Database} {label : String} {formula : Formula}
    {kind : StatementKind} :
    db.addStatement label formula kind = .ok db' ↔
      db.contains label = false ∧
        db' = { db with statements := db.statements ++ [⟨db.size, label, formula, kind⟩] } := by
  rw [contains_eq_false_iff, addStatement]
  cases hf : db.find? label <;> cases hs : db.hasSymbol label <;> simp [eq_comm]

lemma logHypId?_eq_some_iff {db : Database} {label : String} {id : StatementId} :
    db.logHypId? label = some id ↔
      ∃ hyp, db.find? label = some hyp ∧ hyp.isLogHyp = true ∧ hyp.id = id := by
  simp [logHypId?, Option.filter_eq_some_iff, and_assoc]

/-- A theorem's hypotheses are accepted when each of them names a logical hypothesis. -/
lemma logHypIds_eq_ok_iff {db : Database} {label : String} {hyps : List String}
    {ids : List StatementId} :
    db.logHypIds label hyps = .ok ids ↔ hyps.map db.logHypId? = ids.map some := by
  induction hyps generalizing ids with
  | nil => cases ids <;> simp [logHypIds]
  | cons hyp rest ih =>
      rw [logHypIds]
      cases hid : db.logHypId? hyp with
      | none => cases ids <;> simp [hid]
      | some id =>
          rw [Except.map_eq_ok_iff]
          cases ids with
          | nil => simp
          | cons id' ids' =>
              simp only [ih, List.map_cons, hid, List.cons.injEq, Option.some.injEq]
              exact ⟨fun ⟨more, hmore, hid', hm⟩ => ⟨hid', hm ▸ hmore⟩,
                fun ⟨hid', hmore⟩ => ⟨ids', hmore, hid', rfl⟩⟩

lemma addTheorem_eq_ok_iff {db db' : Database} {label : String} {hyps : List String}
    {formula : Formula} :
    db.addTheorem label hyps formula = .ok db' ↔
      ∃ ids, hyps.map db.logHypId? = ids.map some ∧
        db.addStatement label formula (.provable ids) = .ok db' := by
  rw [addTheorem, Except.bind_eq_ok_iff]
  simp only [logHypIds_eq_ok_iff]

/-- **What one addition can do**: it puts one untaken word behind the symbols, or one statement
with an untaken label behind the statements, and what that statement rests on is there already. -/
lemma Adds.cases {db db' : Database} (h : Adds db db') :
    (∃ word, db.contains word = false ∧
      db' = { db with symbols := db.symbols ++ [word] }) ∨
    (∃ label formula kind, db.contains label = false ∧
      (∀ ids, kind = .provable ids → ∀ id ∈ ids, ∃ hyp ∈ db.statements,
        hyp.id = id ∧ hyp.isLogHyp = true) ∧
      db' = { db with statements := db.statements ++ [⟨db.size, label, formula, kind⟩] }) := by
  cases h with
  | symbol word h => exact .inl ⟨word, addSymbol_eq_ok_iff.1 h⟩
  | logHyp label formula h =>
      obtain ⟨hfree, rfl⟩ := addStatement_eq_ok_iff.1 h
      exact .inr ⟨label, formula, .logHyp, hfree, fun ids hk => (by cases hk), rfl⟩
  | axiomatic label formula h =>
      obtain ⟨hfree, rfl⟩ := addStatement_eq_ok_iff.1 h
      exact .inr ⟨label, formula, .axiomatic, hfree, fun ids hk => (by cases hk), rfl⟩
  | provable label hyps formula h =>
      obtain ⟨ids, hids, h⟩ := addTheorem_eq_ok_iff.1 h
      obtain ⟨hfree, rfl⟩ := addStatement_eq_ok_iff.1 h
      refine .inr ⟨label, formula, .provable ids, hfree, ?_, rfl⟩
      rintro _ ⟨⟩ id hid
      have hmem : some id ∈ hyps.map db.logHypId? := hids ▸ List.mem_map_of_mem hid
      obtain ⟨name, -, hname⟩ := List.mem_map.1 hmem
      obtain ⟨hyp, hfind, hlog, rfl⟩ := logHypId?_eq_some_iff.1 hname
      exact ⟨hyp, List.mem_of_find?_eq_some hfind, rfl, hlog⟩

/-! ### The invariant of the additions -/

/-- The invariant of the additions. -/
structure WellFormed (db : Database) : Prop where
  /-- A statement's identity is its position. -/
  id_eq : ∀ (i : Nat) (s : Statement), db.statements[i]? = some s → s.id = i
  labels_nodup : (db.statements.map (·.label)).Nodup
  label_not_mem_symbols : ∀ s ∈ db.statements, s.label ∉ db.symbols
  /-- A theorem rests on logical hypotheses that stand before it. -/
  hyps : ∀ s ∈ db.statements, ∀ ids, s.kind = .provable ids → ∀ id ∈ ids, id < s.id ∧
    ∃ hyp ∈ db.statements, hyp.id = id ∧ hyp.isLogHyp = true

lemma wellFormed_empty : WellFormed {} := by
  constructor <;> simp

lemma hasSymbol_eq_false_iff {db : Database} {word : String} :
    db.hasSymbol word = false ↔ word ∉ db.symbols := by
  rw [hasSymbol, ← Bool.not_eq_true, List.contains_iff_mem]

lemma hasSymbol_append {db : Database} {word other : String} :
    hasSymbol { db with symbols := db.symbols ++ [word] } other =
      (db.hasSymbol other || other == word) := by
  simp [hasSymbol, Bool.beq_eq_decide_eq]

/-- A word is taken afterwards if it was before, or if it is the symbol that was added. -/
lemma contains_append_symbol (db : Database) (name word : String) :
    contains { db with symbols := db.symbols ++ [name] } word =
      (db.contains word || word == name) := by
  rw [contains, hasSymbol_append, contains, Bool.or_assoc]
  rfl

/-- A word is taken afterwards if it was before, or if it is the label that was added. -/
lemma contains_append_statement (db : Database) (s : Statement) (word : String) :
    contains { db with statements := db.statements ++ [s] } word =
      (db.contains word || word == s.label) := by
  have hfind : find? { db with statements := db.statements ++ [s] } word =
      (db.find? word).or ([s].find? (·.label == word)) := List.find?_append
  have hlast : ([s].find? (·.label == word)).isSome = (word == s.label) := by
    rw [Bool.eq_iff_iff, List.find?_isSome, beq_iff_eq]
    simp only [List.mem_singleton, exists_eq_left, beq_iff_eq]
    exact eq_comm
  rw [contains, hfind, Option.isSome_or, hlast, contains, hasSymbol, hasSymbol, Bool.or_right_comm]

lemma find?_eq_none_iff {db : Database} {label : String} :
    db.find? label = none ↔ label ∉ db.statements.map (·.label) := by
  simp [find?]

namespace WellFormed

variable {db : Database}

lemma id_lt (h : db.WellFormed) {s : Statement} (hs : s ∈ db.statements) : s.id < db.size := by
  obtain ⟨i, hi⟩ := List.mem_iff_getElem?.1 hs
  rw [h.id_eq i s hi]
  exact (List.getElem?_eq_some_iff.1 hi).1

lemma addSymbol (h : db.WellFormed) {word : String} (hfree : db.contains word = false) :
    WellFormed { db with symbols := db.symbols ++ [word] } where
  id_eq := h.id_eq
  labels_nodup := h.labels_nodup
  label_not_mem_symbols s hs := by
    have hword : s.label ≠ word := fun heq =>
      find?_eq_none_iff.1 (contains_eq_false_iff.1 hfree).1
        (List.mem_map.2 ⟨s, hs, heq⟩)
    rw [List.mem_append, not_or, List.mem_singleton]
    exact ⟨h.label_not_mem_symbols s hs, hword⟩
  hyps := h.hyps

lemma addStatement (h : db.WellFormed) {label : String} {formula : Formula}
    {kind : StatementKind} (hfree : db.contains label = false)
    (hkind : ∀ ids, kind = .provable ids → ∀ id ∈ ids, ∃ hyp ∈ db.statements,
      hyp.id = id ∧ hyp.isLogHyp = true) :
    WellFormed { db with statements := db.statements ++ [⟨db.size, label, formula, kind⟩] } := by
  obtain ⟨hfind, hsymbol⟩ := contains_eq_false_iff.1 hfree
  refine ⟨fun i s hs => ?_, ?_, fun s hs => ?_, fun s hs ids hids id hid => ?_⟩
  · rw [List.getElem?_append] at hs
    split at hs
    next hlt => exact h.id_eq i s hs
    next hle =>
      rw [List.getElem?_singleton] at hs
      split at hs
      next heq =>
        cases hs
        show db.statements.length = i
        omega
      next => cases hs
  · rw [List.map_append, List.nodup_append]
    refine ⟨h.labels_nodup, by simp, ?_⟩
    rintro a ha b hb rfl
    rw [List.map_singleton, List.mem_singleton] at hb
    rw [hb] at ha
    exact find?_eq_none_iff.1 hfind ha
  · rcases List.mem_append.1 hs with hs | hs
    · exact h.label_not_mem_symbols s hs
    · rw [List.mem_singleton.1 hs]
      exact hasSymbol_eq_false_iff.1 hsymbol
  · rcases List.mem_append.1 hs with hs | hs
    · obtain ⟨hlt, hyp, hmem, hhyp⟩ := h.hyps s hs ids hids id hid
      exact ⟨hlt, hyp, List.mem_append_left _ hmem, hhyp⟩
    · rw [List.mem_singleton.1 hs] at hids ⊢
      obtain ⟨hyp, hmem, rfl, hlog⟩ := hkind ids hids id hid
      exact ⟨h.id_lt hmem, hyp, List.mem_append_left _ hmem, rfl, hlog⟩

/-- The step of the invariant. -/
lemma adds (h : db.WellFormed) {db' : Database} (hadd : Adds db db') : db'.WellFormed := by
  obtain ⟨word, hfree, rfl⟩ | ⟨label, formula, kind, hfree, hkind, rfl⟩ := hadd.cases
  · exact h.addSymbol hfree
  · exact h.addStatement hfree hkind

lemma grows (h : db.WellFormed) {db' : Database} (hgrow : Grows db db') : db'.WellFormed := by
  induction hgrow with
  | refl => exact h
  | tail _ hadd ih => exact ih.adds hadd

end WellFormed

/-- **The invariant of the additions holds of every database that was built.** -/
lemma Built.wellFormed {db : Database} (h : db.Built) : db.WellFormed :=
  wellFormed_empty.grows h

/-! ### Looking statements up -/

namespace WellFormed

variable {db : Database} (h : db.WellFormed)
include h

/-- A statement is found by its label. -/
lemma find?_eq_some_iff {label : String} {s : Statement} :
    db.find? label = some s ↔ s ∈ db.statements ∧ s.label = label := by
  refine ⟨fun hs => ⟨List.mem_of_find?_eq_some hs, by simpa using List.find?_some hs⟩, ?_⟩
  rintro ⟨hs, rfl⟩
  cases hfind : db.find? s.label with
  | none => exact absurd (List.mem_map_of_mem hs) (find?_eq_none_iff.1 hfind)
  | some s' =>
      have hlabel : s'.label = s.label := by simpa using List.find?_some hfind
      rw [List.inj_on_of_nodup_map h.labels_nodup (List.mem_of_find?_eq_some hfind) hs hlabel]

/-- A statement is found by its identity. -/
lemma statement?_eq_some_iff {id : StatementId} {s : Statement} :
    db.statement? id = some s ↔ s ∈ db.statements ∧ s.id = id := by
  refine ⟨fun hs => ⟨List.mem_of_getElem? hs, h.id_eq id s hs⟩, ?_⟩
  rintro ⟨hs, rfl⟩
  obtain ⟨i, hi⟩ := List.mem_iff_getElem?.1 hs
  rw [h.id_eq i s hi]
  exact hi

/-- Statements are found by their identities, one by one. -/
lemma filterMap_statement? {found : List Statement} (hfound : ∀ s ∈ found, s ∈ db.statements) :
    (found.map (·.id)).filterMap db.statement? = found := by
  rw [List.filterMap_map]
  refine (List.filterMap_congr fun s hs => ?_).trans List.filterMap_some
  exact h.statement?_eq_some_iff.2 ⟨hfound s hs, rfl⟩

/-- Two statements with one identity are one statement. -/
lemma eq_of_id_eq {s t : Statement} (hs : s ∈ db.statements) (ht : t ∈ db.statements)
    (hid : s.id = t.id) : s = t :=
  Option.some.inj <| (h.statement?_eq_some_iff.2 ⟨hs, hid⟩).symm.trans
    (h.statement?_eq_some_iff.2 ⟨ht, rfl⟩)

/-- Two statements with one label are one statement. -/
lemma eq_of_label_eq {s t : Statement} (hs : s ∈ db.statements) (ht : t ∈ db.statements)
    (hlabel : s.label = t.label) : s = t :=
  List.inj_on_of_nodup_map h.labels_nodup hs ht hlabel

end WellFormed

/-! ### The hypotheses of a theorem -/

lemma mem_hypothesesOf_iff {db : Database} {label : String} {hyp : Statement} :
    hyp ∈ db.hypothesesOf label ↔
      ∃ s ids, db.find? label = some s ∧ s.kind = .provable ids ∧
        ∃ id ∈ ids, db.statement? id = some hyp := by
  unfold hypothesesOf
  cases hfind : db.find? label with
  | none => simp
  | some s => cases hkind : s.kind <;> simp [Statement.hyps?, hkind]

/-- The hypotheses of a theorem are logical hypotheses of the database. -/
lemma WellFormed.of_mem_hypothesesOf {db : Database} (h : db.WellFormed) {label : String}
    {hyp : Statement} (hhyp : hyp ∈ db.hypothesesOf label) :
    hyp ∈ db.statements ∧ hyp.isLogHyp = true := by
  obtain ⟨s, ids, hfind, hkind, id, hid, hstatement⟩ := mem_hypothesesOf_iff.1 hhyp
  obtain ⟨hmem, rfl⟩ := h.statement?_eq_some_iff.1 hstatement
  obtain ⟨-, hyp', hmem', hid', hlog⟩ :=
    h.hyps s (List.mem_of_find?_eq_some hfind) ids hkind hyp.id hid
  exact ⟨hmem, h.eq_of_id_eq hmem' hmem hid' ▸ hlog⟩

end ProofSheet.Database
