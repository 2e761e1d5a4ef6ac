import Mathlib.Data.List.Induction
import ProofSheet.Proofs.Database.Growth

/-!
The database as the record of the calls that were made to add to it, accepted or refused.

* `Database.Addition`, `Database.attempt`, `Database.ofAdditions`: a call, the database that it
  leaves, and the database after any sequence of calls;
* `Database.Addition.Puts`: the statement that a call puts into the database;
* `Database.Addition.outcome_eq_ok_iff`, `Database.attempt_eq_self_iff`: what an accepted call
  changes, and that a refused one changes nothing;
* `Database.mem_statements_ofAdditions_iff`: the statements are those of the accepted calls, as
  they were added;
* `Database.Addition.Puts.hypothesesOf_eq`: what a theorem was added with is what it has at any
  later time;
* `Database.Records`, `Database.records_ofAdditions`: **the database records its additions**.
-/

namespace ProofSheet.Database

/-! ### Calls -/

/-- A call to add to the database: a math symbol, or a statement of one of the three kinds. -/
inductive Addition
  | symbol (word : String)
  | logHyp (label : String) (formula : Formula)
  | axiomatic (label : String) (formula : Formula)
  | provable (label : String) (hyps : List String) (formula : Formula)
deriving DecidableEq

namespace Addition

/-- The larger database, or the reason to refuse the call. -/
def outcome (db : Database) : Addition → Except DatabaseError Database
  | symbol word => db.addSymbol word
  | logHyp label formula => db.addLogHyp label formula
  | axiomatic label formula => db.addAxiomatic label formula
  | provable label hyps formula => db.addTheorem label hyps formula

/-- The statement is the one that the call asks for. Its identity is the number of the statements
before it, and a theorem names its hypotheses by the identities that are found under their
labels. -/
def Puts (db : Database) (s : Statement) : Addition → Prop
  | symbol _ => False
  | logHyp label formula => s = ⟨db.size, label, formula, .logHyp⟩
  | axiomatic label formula => s = ⟨db.size, label, formula, .axiomatic⟩
  | provable label hyps formula =>
    ∃ ids, hyps.map db.logHypId? = ids.map some ∧ s = ⟨db.size, label, formula, .provable ids⟩

end Addition

/-- The database after a call: the larger one, or the same if the call is refused. -/
def attempt (db : Database) (call : Addition) : Database :=
  match call.outcome db with
  | .ok db' => db'
  | .error _ => db

/-- The database after a sequence of calls, from the empty one. -/
def ofAdditions (calls : List Addition) : Database :=
  calls.foldl attempt {}

lemma ofAdditions_concat (calls : List Addition) (call : Addition) :
    ofAdditions (calls ++ [call]) = (ofAdditions calls).attempt call :=
  List.foldl_concat ..

/-! ### One call -/

namespace Addition

variable {db db' : Database} {call : Addition} {s t : Statement}

/-- A call asks for one statement. -/
lemma Puts.eq (hs : call.Puts db s) (ht : call.Puts db t) : s = t := by
  cases call with
  | symbol word => exact hs.elim
  | logHyp label formula => exact Eq.trans hs (Eq.symm ht)
  | axiomatic label formula => exact Eq.trans hs (Eq.symm ht)
  | provable label hyps formula =>
      obtain ⟨ids, hids, rfl⟩ := hs
      obtain ⟨ids', hids', rfl⟩ := ht
      obtain rfl := List.map_injective_iff.2 (fun _ _ => Option.some.inj) (hids.symm.trans hids')
      rfl

/-- **What an accepted call changes**: it puts one untaken word behind the symbols, or the
statement that it asks for behind the statements. -/
lemma outcome_eq_ok_iff :
    call.outcome db = .ok db' ↔
      (∃ word, call = .symbol word ∧ db.contains word = false ∧
        db' = { db with symbols := db.symbols ++ [word] }) ∨
      ∃ s, call.Puts db s ∧ db.contains s.label = false ∧
        db' = { db with statements := db.statements ++ [s] } := by
  cases call with
  | symbol word => simp [outcome, Puts, addSymbol_eq_ok_iff]
  | logHyp label formula => simp [outcome, Puts, addLogHyp, addStatement_eq_ok_iff]
  | axiomatic label formula => simp [outcome, Puts, addAxiomatic, addStatement_eq_ok_iff]
  | provable label hyps formula =>
      simp only [outcome, Puts, addTheorem_eq_ok_iff, addStatement_eq_ok_iff, reduceCtorEq,
        false_and, exists_false, false_or]
      constructor
      · rintro ⟨ids, hids, hfree, rfl⟩
        exact ⟨_, ⟨ids, hids, rfl⟩, hfree, rfl⟩
      · rintro ⟨_, ⟨ids, hids, rfl⟩, hfree, rfl⟩
        exact ⟨ids, hids, hfree, rfl⟩

lemma adds_of_outcome (h : call.outcome db = .ok db') : Adds db db' := by
  cases call with
  | symbol word => exact .symbol word h
  | logHyp label formula => exact .logHyp label formula h
  | axiomatic label formula => exact .axiomatic label formula h
  | provable label hyps formula => exact .provable label hyps formula h

end Addition

section Attempt

variable {db db' : Database} {call : Addition} {s : Statement}

lemma attempt_of_ok (h : call.outcome db = .ok db') : db.attempt call = db' := by
  rw [attempt, h]

lemma attempt_of_error {e : DatabaseError} (h : call.outcome db = .error e) :
    db.attempt call = db := by
  rw [attempt, h]

/-- **A call changes nothing exactly when it is refused.** -/
lemma attempt_eq_self_iff : db.attempt call = db ↔ ∃ e, call.outcome db = .error e := by
  cases h : call.outcome db with
  | error e => exact iff_of_true (attempt_of_error h) ⟨e, rfl⟩
  | ok db' =>
      rw [attempt_of_ok h]
      refine iff_of_false ?_ (by simp)
      rintro rfl
      obtain ⟨word, -, -, hsame⟩ | ⟨s, -, -, hsame⟩ := Addition.outcome_eq_ok_iff.1 h
      · exact absurd (congrArg (·.symbols.length) hsame) (by simp)
      · exact absurd (congrArg (·.statements.length) hsame) (by simp)

lemma grows_attempt (db : Database) (call : Addition) : Grows db (db.attempt call) := by
  cases h : call.outcome db with
  | error e => rw [attempt_of_error h]
  | ok db' =>
      rw [attempt_of_ok h]
      exact .single (Addition.adds_of_outcome h)

/-- One call puts at most one statement behind the others. -/
lemma mem_statements_attempt_iff :
    s ∈ (db.attempt call).statements ↔
      s ∈ db.statements ∨ (∃ db', call.outcome db = .ok db') ∧ call.Puts db s := by
  cases h : call.outcome db with
  | error e => simp [attempt_of_error h]
  | ok db' =>
      rw [attempt_of_ok h]
      obtain ⟨word, rfl, -, rfl⟩ | ⟨t, ht, -, rfl⟩ := Addition.outcome_eq_ok_iff.1 h
      · simp [Addition.Puts]
      · have hput : call.Puts db s ↔ s = t := ⟨fun hs => hs.eq ht, fun heq => heq ▸ ht⟩
        simp [hput]

end Attempt

/-! ### Sequences of calls -/

section Sequence

variable {before calls : List Addition} {call : Addition} {s : Statement}

/-- Later calls take nothing back. -/
lemma grows_ofAdditions (h : before <+: calls) :
    Grows (ofAdditions before) (ofAdditions calls) := by
  obtain ⟨later, rfl⟩ := h
  induction later using List.reverseRecOn with
  | nil => rw [List.append_nil]
  | append_singleton later call ih =>
      rw [← List.append_assoc, ofAdditions_concat]
      exact ih.trans (grows_attempt _ call)

lemma built_ofAdditions (calls : List Addition) : (ofAdditions calls).Built :=
  grows_ofAdditions List.nil_prefix

/-- **The statements are those of the accepted calls**, with the identity, the formula and the
kind that they were added with. -/
lemma mem_statements_ofAdditions_iff :
    s ∈ (ofAdditions calls).statements ↔
      ∃ before call, before ++ [call] <+: calls ∧
        (∃ db, call.outcome (ofAdditions before) = .ok db) ∧ call.Puts (ofAdditions before) s := by
  induction calls using List.reverseRecOn with
  | nil => simp [ofAdditions]
  | append_singleton calls last ih =>
      rw [ofAdditions_concat, mem_statements_attempt_iff, ih]
      constructor
      · rintro (⟨before, call, hprefix, hput⟩ | hput)
        · exact ⟨before, call, hprefix.trans (List.prefix_append _ _), hput⟩
        · exact ⟨calls, last, List.prefix_rfl, hput⟩
      · rintro ⟨before, call, hprefix, hput⟩
        rcases List.prefix_concat_iff.1 hprefix with heq | hprefix
        · obtain ⟨rfl, hlast⟩ := List.append_inj' heq rfl
          obtain rfl := List.singleton_injective hlast
          exact .inr hput
        · exact .inl ⟨before, call, hprefix, hput⟩

end Sequence

/-! ### What a theorem rests on -/

section Hypotheses

variable {db db' : Database}

/-- Labels that name logical hypotheses, and the hypotheses that they name. -/
lemma map_logHypId?_eq_iff {hyps : List String} {ids : List StatementId} :
    hyps.map db.logHypId? = ids.map some ↔
      ∃ found : List Statement, hyps.map db.find? = found.map some ∧
        (∀ hyp ∈ found, hyp.isLogHyp = true) ∧ ids = found.map (·.id) := by
  induction hyps generalizing ids with
  | nil =>
      rw [List.map_nil, List.map_nil, eq_comm, List.map_eq_nil_iff]
      constructor
      · rintro rfl
        exact ⟨[], rfl, by simp, rfl⟩
      · rintro ⟨found, hfound, -, rfl⟩
        rw [List.map_eq_nil_iff.1 hfound.symm, List.map_nil]
  | cons label hyps ih =>
      rw [List.map_cons, List.map_cons, eq_comm, List.map_eq_cons_iff]
      constructor
      · rintro ⟨id, rest, rfl, hid, hrest⟩
        obtain ⟨hyp, hfind, hlog, rfl⟩ := logHypId?_eq_some_iff.1 hid.symm
        obtain ⟨found, hfound, hall, rfl⟩ := ih.1 hrest.symm
        refine ⟨hyp :: found, ?_, List.forall_mem_cons.2 ⟨hlog, hall⟩, rfl⟩
        rw [hfind, hfound, List.map_cons]
      · rintro ⟨found, hfound, hall, rfl⟩
        obtain ⟨hyp, rest, rfl, hhyp, hrest⟩ := List.map_eq_cons_iff.1 hfound.symm
        obtain ⟨hlog, hall⟩ := List.forall_mem_cons.1 hall
        refine ⟨hyp.id, rest.map (·.id), rfl, ?_, ?_⟩
        · exact (logHypId?_eq_some_iff.2 ⟨hyp, hhyp.symm, hlog, rfl⟩).symm
        · exact (ih.2 ⟨rest, hrest.symm, hall, rfl⟩).symm

/-- Labels that find their statements find them at any later time. -/
lemma Grows.map_find?_eq (h : Grows db db') {labels : List String} {found : List Statement}
    (hfound : labels.map db.find? = found.map some) : labels.map db'.find? = found.map some := by
  rw [← hfound]
  refine List.map_congr_left fun label hlabel => ?_
  have hmem : db.find? label ∈ found.map some := hfound ▸ List.mem_map_of_mem hlabel
  obtain ⟨s, -, hs⟩ := List.mem_map.1 hmem
  rw [← hs, h.find?_eq_some hs.symm]

/-- **A theorem has the hypotheses that it was added with**: at any later time they are what is
found under their labels, none is missing, and they stand before the theorem. -/
lemma Addition.Puts.hypothesesOf_eq (hdb : db.WellFormed) {label : String} {hyps : List String}
    {formula : Formula} {s : Statement} (hput : Puts db s (.provable label hyps formula))
    (hgrow : Grows db db') (hs : s ∈ db'.statements) :
    db'.find? label = some s ∧ (db'.hypothesesOf label).map some = hyps.map db.find? ∧
      (db'.hypothesesOf label).map some = hyps.map db'.find? ∧
        ∀ hyp ∈ db'.hypothesesOf label, hyp.isLogHyp = true ∧ hyp.id < s.id := by
  obtain ⟨ids, hids, rfl⟩ := hput
  obtain ⟨found, hfound, hlog, rfl⟩ := map_logHypId?_eq_iff.1 hids
  have hwf := hdb.grows hgrow
  have hfind := hwf.find?_eq_some_iff.2 ⟨hs, rfl⟩
  have hmem : ∀ hyp ∈ found, hyp ∈ db.statements := fun hyp hhyp => by
    have hsome : some hyp ∈ hyps.map db.find? := hfound ▸ List.mem_map_of_mem hhyp
    obtain ⟨name, -, hname⟩ := List.mem_map.1 hsome
    exact List.mem_of_find?_eq_some hname
  have hhyps : db'.hypothesesOf label = found := by
    rw [hypothesesOf, hfind]
    exact hwf.filterMap_statement? fun hyp hhyp => hgrow.statements_prefix.subset (hmem hyp hhyp)
  rw [hhyps]
  exact ⟨hfind, hfound.symm, (hgrow.map_find?_eq hfound).symm,
    fun hyp hhyp => ⟨hlog hyp hhyp, hdb.id_lt (hmem hyp hhyp)⟩⟩

end Hypotheses

/-! ### The record -/

/-- What the database is to the calls that were made on it. -/
structure Records (db : Database) (calls : List Addition) : Prop where
  id_eq : ∀ (i : Nat) (s : Statement), db.statements[i]? = some s → s.id = i
  find?_eq : ∀ s ∈ db.statements, db.find? s.label = some s
  labels_nodup : (db.statements.map (·.label)).Nodup
  /-- Every statement is as some accepted call put it there, and none of them was lost. -/
  mem_statements_iff : ∀ s, s ∈ db.statements ↔
    ∃ before call, before ++ [call] <+: calls ∧
      (∃ db', call.outcome (ofAdditions before) = .ok db') ∧ call.Puts (ofAdditions before) s
  /-- Labels and math symbols share one namespace. -/
  symbols_disjoint : db.symbols.Disjoint (db.statements.map (·.label))
  find?_eq_none : ∀ word ∈ db.symbols, db.find? word = none
  /-- A theorem has the hypotheses whose labels it was added with. -/
  hypothesesOf_eq : ∀ before label hyps formula db', before ++ [.provable label hyps formula] <+:
    calls → (ofAdditions before).addTheorem label hyps formula = .ok db' →
      ∃ s, db.find? label = some s ∧
        (db.hypothesesOf label).map some = hyps.map (ofAdditions before).find? ∧
        (db.hypothesesOf label).map some = hyps.map db.find? ∧
          ∀ hyp ∈ db.hypothesesOf label, hyp.isLogHyp = true ∧ hyp.id < s.id
  /-- A refused call changes nothing, and an accepted one does. -/
  attempt_eq_iff : ∀ call, db.attempt call = db ↔ ∃ e, call.outcome db = .error e

/-- **The database records its additions.** After any sequence of calls, accepted and refused, the
identities are the positions and every statement is found by its label; the labels are distinct,
and none is a symbol; the statements are those of the accepted calls, as these put them there; a
theorem has the hypotheses whose labels it was added with, in their order, and they are logical
hypotheses that stand before it; and a further call changes nothing if it is refused. -/
theorem records_ofAdditions (calls : List Addition) : (ofAdditions calls).Records calls := by
  have hwf := (built_ofAdditions calls).wellFormed
  have hdisjoint : (ofAdditions calls).symbols.Disjoint
      ((ofAdditions calls).statements.map (·.label)) := by
    intro word hword hlabel
    obtain ⟨s, hs, rfl⟩ := List.mem_map.1 hlabel
    exact hwf.label_not_mem_symbols s hs hword
  refine ⟨hwf.id_eq, fun s hs => hwf.find?_eq_some_iff.2 ⟨hs, rfl⟩, hwf.labels_nodup,
    fun s => mem_statements_ofAdditions_iff, hdisjoint,
    fun word hword => find?_eq_none_iff.2 fun hlabel => hdisjoint hword hlabel,
    fun before label hyps formula db hprefix hadd => ?_, fun call => attempt_eq_self_iff⟩
  · have hok : (Addition.provable label hyps formula).outcome (ofAdditions before) = .ok db := hadd
    obtain ⟨_, hsymbol, -⟩ | ⟨s, hput, -, -⟩ := Addition.outcome_eq_ok_iff.1 hok
    · cases hsymbol
    · have hs := mem_statements_ofAdditions_iff.2 ⟨before, _, hprefix, ⟨db, hok⟩, hput⟩
      exact ⟨s, hput.hypothesesOf_eq (built_ofAdditions before).wellFormed
        (grows_ofAdditions ((List.prefix_append _ _).trans hprefix)) hs⟩

/-- Seven calls, of which three are refused: a symbol with the label of a statement, a theorem on
an axiom, and a label that is taken. -/
example :
    (ofAdditions [.logHyp "a" ⟨["x"]⟩, .symbol "a", .axiomatic "b" ⟨["y"]⟩,
      .provable "t" ["a", "b"] ⟨["z"]⟩, .logHyp "c" ⟨["x"]⟩, .provable "t" ["c", "a", "c"] ⟨["z"]⟩,
      .logHyp "t" ⟨["x"]⟩]).statements =
      [⟨0, "a", ⟨["x"]⟩, .logHyp⟩, ⟨1, "b", ⟨["y"]⟩, .axiomatic⟩, ⟨2, "c", ⟨["x"]⟩, .logHyp⟩,
        ⟨3, "t", ⟨["z"]⟩, .provable [2, 0, 2]⟩] := by
  decide

end ProofSheet.Database
