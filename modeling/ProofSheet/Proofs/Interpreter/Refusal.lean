import ProofSheet.Proofs.Interpreter.Reachable

/-!
Refused additions: what a command of the database leaves behind when it fails.

* `Database.addSymbols_eq_error`: a list of symbols stops at the first one that is taken, and the
  symbols in front of it stay;
* `DatabaseCommand.run_eq_error`, `DatabaseCommand.run_eq_self_iff`: every other command changes
  nothing, and so does a list whose first symbol is taken;
* `Interpreter.execute_database_eq_error`: **what a refused command changes**, and when that is
  nothing;
* `Interpreter.execute_symbols_not_atomic`: a refused command that leaves a symbol behind.
-/

namespace ProofSheet

namespace Database

lemma contains_of_addSymbol_eq_error {db : Database} {word : String} {e : DatabaseError}
    (h : db.addSymbol word = .error e) : db.contains word = true := by
  by_contra hfree
  rw [addSymbol_eq_ok_iff.2 ⟨Bool.eq_false_iff.2 hfree, rfl⟩] at h
  cases h

/-- **A list of symbols that is refused** was accepted up to a word that is taken, by the database
or by the list itself. -/
lemma addSymbols_eq_error {db db' : Database} {names : List String} {e : DatabaseError}
    (h : db.addSymbols names = (.error e, db')) :
    ∃ accepted word rest, names = accepted ++ word :: rest ∧ accepted.Nodup ∧
      (∀ name ∈ accepted, db.contains name = false) ∧
        (db.contains word = true ∨ word ∈ accepted) ∧
          db' = { db with symbols := db.symbols ++ accepted } := by
  induction names generalizing db with
  | nil => cases h
  | cons name names ih =>
      rw [addSymbols] at h
      cases hadd : db.addSymbol name with
      | error e' =>
          rw [hadd] at h
          cases h
          exact ⟨[], name, names, rfl, List.nodup_nil, by simp,
            .inl (contains_of_addSymbol_eq_error hadd), by rw [List.append_nil]⟩
      | ok db₁ =>
          rw [hadd] at h
          obtain ⟨hfree, rfl⟩ := addSymbol_eq_ok_iff.1 hadd
          obtain ⟨accepted, word, rest, rfl, hnodup, hall, htaken, rfl⟩ := ih h
          simp only [contains_append_symbol, Bool.or_eq_true, Bool.or_eq_false_iff, beq_iff_eq,
            beq_eq_false_iff_ne] at hall htaken
          refine ⟨name :: accepted, word, rest, rfl, ?_, ?_, ?_, by simp⟩
          · exact List.nodup_cons.2 ⟨fun hmem => (hall name hmem).2 rfl, hnodup⟩
          · exact List.forall_mem_cons.2 ⟨hfree, fun other hmem => (hall other hmem).1⟩
          · rw [List.mem_cons, ← or_assoc]
            exact htaken

end Database

namespace DatabaseCommand

/-- A command that adds one statement changes nothing when it is refused. -/
lemma run_eq_error {db db' : Database} {command : DatabaseCommand} {e : DatabaseError}
    (h : command.run db = (.error e, db')) (hsymbols : ∀ names, command ≠ symbols names) :
    db' = db := by
  have horStay {outcome : Except DatabaseError Database}
      (h : db.orStay outcome = (.error e, db')) : db' = db := by
    cases outcome <;> cases h
    rfl
  cases command with
  | symbols names => exact absurd rfl (hsymbols names)
  | logHyp label formula => exact horStay h
  | axiomatic label formula => exact horStay h
  | provable label hyps formula => exact horStay h

/-- A refused command changes nothing if and only if it is no list of symbols or its first symbol
is taken already. -/
lemma run_eq_self_iff {db db' : Database} {command : DatabaseCommand} {e : DatabaseError}
    (h : command.run db = (.error e, db')) :
    db' = db ↔ ∀ first rest, command = .symbols (first :: rest) → db.contains first = true := by
  by_cases hsymbols : ∀ names, command ≠ .symbols names
  · rw [run_eq_error h hsymbols]
    exact iff_of_true rfl fun first rest heq => absurd heq (hsymbols _)
  · obtain ⟨names, hnames⟩ := not_forall.1 hsymbols
    obtain rfl := not_not.1 hnames
    obtain ⟨accepted, word, rest, rfl, -, hall, htaken, rfl⟩ := Database.addSymbols_eq_error h
    cases accepted with
    | nil =>
        rw [List.append_nil]
        refine iff_of_true rfl fun first more heq => ?_
        cases heq
        exact htaken.resolve_right List.not_mem_nil
    | cons name accepted =>
        refine iff_of_false (fun heq => ?_) fun hfirst => ?_
        · have hsymbols := congrArg (·.symbols) heq
          simp at hsymbols
        · have hfree := hall name List.mem_cons_self
          rw [hfirst name (accepted ++ word :: rest) rfl] at hfree
          cases hfree

end DatabaseCommand

namespace Interpreter

lemma runDatabase_eq_error {state state' : Interpreter} {command : DatabaseCommand}
    {e : CommandError} (h : state.runDatabase command = (.error e, state')) :
    ∃ e' db', command.run state.database = (.error e', db') ∧
      state' = { state with database := db' } := by
  rw [runDatabase] at h
  split at h
  · cases h
  next e' db' hrun =>
    cases h
    exact ⟨e', db', hrun, rfl⟩

/-- **What a refused command of the database changes.** A list of symbols leaves behind the
symbols in front of the first one that is taken. The state stays as it was if and only if the
command is no list of symbols or its first symbol is taken already. -/
theorem execute_database_eq_error {σ : Type} [Storage (StateM σ)] {state state' : Interpreter}
    {command : DatabaseCommand} {world world' : σ} {e : CommandError}
    (h : (state.execute (.database command) : StateM σ (Answer × Interpreter)).run world =
      ((.error e, state'), world')) :
    world' = world ∧
      (∀ names, command = .symbols names →
        ∃ accepted word rest, names = accepted ++ word :: rest ∧ accepted.Nodup ∧
          (∀ name ∈ accepted, state.database.contains name = false) ∧
            (state.database.contains word = true ∨ word ∈ accepted) ∧
              state' = { state with database :=
                { state.database with symbols := state.database.symbols ++ accepted } }) ∧
        (state' = state ↔ ∀ first rest, command = .symbols (first :: rest) →
          state.database.contains first = true) := by
  obtain ⟨hrun, rfl⟩ := Prod.mk.inj h
  obtain ⟨e', db', hcommand, rfl⟩ := runDatabase_eq_error hrun
  refine ⟨rfl, ?_, ?_⟩
  · rintro names rfl
    obtain ⟨accepted, word, rest, hnames, hnodup, hall, htaken, rfl⟩ :=
      Database.addSymbols_eq_error hcommand
    exact ⟨accepted, word, rest, hnames, hnodup, hall, htaken, rfl⟩
  · rw [← DatabaseCommand.run_eq_self_iff hcommand]
    constructor
    · intro heq
      exact congrArg (·.database) heq
    · intro heq
      rw [heq]

/-- The second symbol is the label of a statement, and the first one stays. -/
theorem execute_database_eq_error_label :
    ∃ state state' : Interpreter, ∃ e,
      (state.execute (.database (.symbols ["a", "h"])) :
        StateM FileSystem (Answer × Interpreter)).run {} = ((.error e, state'), {}) ∧
        ¬ state' = state := by
  have h : (execute { database := { statements := [⟨0, "h", ⟨["x"]⟩, .logHyp⟩] } }
      (.database (.symbols ["a", "h"])) : StateM FileSystem (Answer × Interpreter)).run {} =
      ((.error (.database (.duplicateStatement "h")),
        { database := ⟨[⟨0, "h", ⟨["x"]⟩, .logHyp⟩], ["a"]⟩ }), {}) := rfl
  obtain ⟨-, -, hiff⟩ := execute_database_eq_error h
  refine ⟨_, _, _, h, fun heq => ?_⟩
  have hfirst := hiff.1 heq "a" ["h"] rfl
  exact absurd hfirst (by decide)

/-- Not every refused command leaves the database as it was: here a list of symbols, behind the
label of a hypothesis. -/
theorem execute_symbols_not_atomic :
    ¬ ∀ (state state' : Interpreter) (command : DatabaseCommand) (world world' : FileSystem)
      (e : CommandError), Reachable FileSystem state →
        (state.execute (.database command) : StateM FileSystem (Answer × Interpreter)).run world =
          ((.error e, state'), world') →
        state'.database = state.database ∧ state'.worksheet = state.worksheet ∧
          state'.messages = state.messages := by
  intro hall
  have hreach : Reachable FileSystem _ :=
    (Reachable.start .refl {} {}).execute (.database (.logHyp "h" ⟨["x"]⟩)) {}
  obtain ⟨hdb, -⟩ := hall _ _ (.symbols ["a", "h"]) {} _ _ hreach rfl
  exact absurd (congrArg (·.symbols) hdb) (by decide)

end Interpreter

end ProofSheet
