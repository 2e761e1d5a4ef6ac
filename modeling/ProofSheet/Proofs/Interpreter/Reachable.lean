import ProofSheet.Interpreter.Basic
import ProofSheet.Proofs.Worksheet.Settlement
import ProofSheet.Storage.FileSystem

/-!
Runs of the interpreter, and what holds in every state that they lead to.

* `Interpreter.Reachable`: the states that commands and texts lead to, from any database that was
  built by additions and over any world of files;
* `Interpreter.Change`: the four ways in which a state changes;
* `Interpreter.Reachable.induction`: a property of states that each of them keeps holds in every
  reachable state;
* `Interpreter.Reachable.settled`: **the hypothesis steps of a loaded worksheet** are bound to
  logical hypotheses of the database as it is now, or in a new theorem to nothing.
-/

namespace ProofSheet

/-! ### Databases grow -/

namespace Database

lemma grows_addSymbols (db : Database) (names : List String) :
    Grows db (db.addSymbols names).2 := by
  induction names generalizing db with
  | nil => exact .refl
  | cons name names ih =>
      rw [addSymbols]
      cases h : db.addSymbol name with
      | error e => exact .refl
      | ok db' => exact .head (.symbol name h) (ih db')

lemma grows_orStay {db : Database} {outcome : Except DatabaseError Database}
    (h : ∀ db', outcome = .ok db' → Adds db db') : Grows db (db.orStay outcome).2 := by
  cases outcome with
  | error e => exact .refl
  | ok db' => exact .single (h db' rfl)

/-- No command takes anything out of the database. -/
lemma grows_run (db : Database) (command : DatabaseCommand) : Grows db (command.run db).2 := by
  cases command with
  | symbols names => exact db.grows_addSymbols names
  | logHyp label formula => exact grows_orStay fun db' h => .logHyp label formula h
  | axiomatic label formula => exact grows_orStay fun db' h => .axiomatic label formula h
  | provable label hyps formula => exact grows_orStay fun db' h => .provable label hyps formula h

end Database

namespace Interpreter

/-! ### States that are reached -/

/-- The states that the interpreter can get into. A run starts with a database that was built by
additions, and files may change in any way between two commands. -/
inductive Reachable (σ : Type) [Storage (StateM σ)] : Interpreter → Prop
  | start {db : Database} (hdb : db.Built) (limits : MessageLimits) (config : ExportConfig) :
      Reachable σ { database := db, messages := { limits }, exportConfig := config }
  | execute {state : Interpreter} (h : Reachable σ state) (command : Command) (world : σ) :
      Reachable σ ((state.execute command : StateM σ (Answer × Interpreter)).run world).1.2
  | loadText {state : Interpreter} (h : Reachable σ state) (text : String) :
      Reachable σ (state.loadText text).2

/-- One change of the state. -/
inductive Change (state : Interpreter) : Interpreter → Prop
  | database (command : DatabaseCommand) :
      Change state { state with database := (command.run state.database).2 }
  | load (text : String) : Change state (state.loadText text).2
  | renumber {sheet : Worksheet} (h : state.worksheet = some sheet) (m : Renumbering) :
      Change state { state with worksheet := some (sheet.renumber m) }
  | note (messages : Messages) : Change state { state with messages }

lemma runDatabase_snd (state : Interpreter) (command : DatabaseCommand) :
    (state.runDatabase command).2 =
      { state with database := (command.run state.database).2 } := by
  rw [runDatabase]
  split
  next h => rw [h]
  next h => rw [h]

lemma change_noteExport (state : Interpreter) (outcome : Except ExportError String) :
    Change state (state.noteExport outcome).2 := by
  cases outcome with
  | ok path => exact .note _
  | error e => exact .note _

section Execute

variable {σ : Type} [Storage (StateM σ)]

lemma change_loadFile (state : Interpreter) (path : String) (world : σ) :
    Change state ((state.loadFile path : StateM σ (Answer × Interpreter)).run world).1.2 := by
  rw [loadFile, StateT.run_bind]
  generalize (Storage.read path : StateM σ _).run world = found
  obtain ⟨read, world'⟩ := found
  cases read with
  | ok text => exact .load text
  | error fault => exact .note state.messages

/-- **What a command can do** to the state. -/
lemma change_execute (state : Interpreter) (command : Command) (world : σ) :
    Change state ((state.execute command : StateM σ (Answer × Interpreter)).run world).1.2 := by
  cases command with
  | database command =>
      show Change state (state.runDatabase command).2
      rw [runDatabase_snd]
      exact .database command
  | load path => exact change_loadFile state path world
  | sheet command =>
      rw [execute]
      cases h : state.worksheet with
      | none => exact .note state.messages
      | some sheet =>
          cases command with
          | display detail => exact .note state.messages
          | renumber m => exact .renumber h m
          | exportTo dir => exact change_noteExport state _

end Execute

/-- What every change keeps holds in every reachable state. -/
lemma Reachable.induction {σ : Type} [Storage (StateM σ)] {P : Interpreter → Prop}
    (hstart : ∀ db limits config, db.Built →
      P { database := db, messages := { limits }, exportConfig := config })
    (hchange : ∀ state state', P state → Change state state' → P state')
    {state : Interpreter} (h : Reachable σ state) : P state := by
  induction h with
  | start hdb limits config => exact hstart _ limits config hdb
  | execute _ command world ih => exact hchange _ _ ih (change_execute _ command world)
  | loadText _ text ih => exact hchange _ _ ih (.load text)

/-! ### The invariant of the runs -/

/-- The invariant of the runs: the database was built by additions, and the loaded worksheet is
settled. -/
structure Sound (state : Interpreter) : Prop where
  built : state.database.Built
  worksheet : ∀ sheet ∈ state.worksheet, sheet.document.Settled state.database sheet.target

/-- The step of the invariant. -/
lemma Sound.change {state state' : Interpreter} (h : state.Sound)
    (hchange : Change state state') : state'.Sound := by
  have hdb : state.database.WellFormed := h.built.wellFormed
  cases hchange with
  | database command =>
      have hgrow := state.database.grows_run command
      exact ⟨h.built.trans hgrow, fun sheet hs => (h.worksheet sheet hs).grows hdb hgrow⟩
  | load text =>
      rw [loadText]
      cases hload : Worksheet.load state.database text with
      | error e => exact ⟨h.built, fun sheet hs => (by cases hs)⟩
      | ok sheet =>
          refine ⟨h.built, ?_⟩
          rintro _ ⟨⟩
          exact Worksheet.settled_of_load hdb hload
  | renumber hsheet m =>
      refine ⟨h.built, ?_⟩
      rintro _ ⟨⟩
      exact (h.worksheet _ hsheet).renumber m
  | note messages => exact ⟨h.built, h.worksheet⟩

lemma Reachable.sound {σ : Type} [Storage (StateM σ)] {state : Interpreter}
    (h : Reachable σ state) : state.Sound :=
  h.induction (fun _ _ _ hdb => ⟨hdb, fun _ hs => (by cases hs)⟩) fun _ _ hs hc => hs.change hc

/-- **The hypothesis steps of a loaded worksheet.** However a state was reached, in a worksheet
that proves a theorem of the database every hypothesis step stands for a logical hypothesis of
that theorem in the database as it is now, no two for the same one; in a worksheet that proves a
new theorem every hypothesis step is bound to nothing and reserves a label. -/
theorem Reachable.settled {σ : Type} [Storage (StateM σ)] {state : Interpreter}
    (h : Reachable σ state) {sheet : Worksheet} (hsheet : state.worksheet = some sheet) :
    match sheet.target with
    | .existing theoremLabel =>
      (∀ s ∈ sheet.document.hypotheses, ∃ hyp, s.StandsFor state.database theoremLabel hyp) ∧
        (sheet.document.hypotheses.map (·.bound)).Nodup
    | .fresh _ => ∀ s ∈ sheet.document.hypotheses, s.Reserves :=
  h.sound.worksheet sheet hsheet

/-- Two hypotheses with one formula, a worksheet that takes the second one by its label and the
first one by its formula, and then a renumbering and one more symbol. -/
theorem Reachable.settled_after_growth :
    ∃ state sheet, Reachable FileSystem state ∧ state.worksheet = some sheet ∧
      sheet.document.hypotheses.map (·.bound) = [some 1, some 0] ∧
      (∀ s ∈ sheet.document.hypotheses, ∃ hyp, s.StandsFor state.database "a" hyp) ∧
        (sheet.document.hypotheses.map (·.bound)).Nodup := by
  suffices hstate : ∃ state, Reachable FileSystem state ∧ state.worksheet = some
      ⟨.existing "a", none, ⟨[
        .hypothesis ⟨"4", "a.2", ⟨["x"]⟩, .flat ParseTree.wff ⟨["x"]⟩, some 1, "h4::a.2 x", 1⟩,
        .hypothesis ⟨"2", "a.1", ⟨["x"]⟩, .flat ParseTree.wff ⟨["x"]⟩, some 0, "h2::a.1 x", 1⟩,
        .derivation ⟨"3", ["4", "2"], some "a", some ⟨["y"]⟩, "3:4,2:a y", 1⟩]⟩⟩ by
    obtain ⟨state, h, hsheet⟩ := hstate
    exact ⟨state, _, h, hsheet, rfl, h.settled hsheet⟩
  have hstart : Reachable FileSystem {} := .start .refl {} {}
  have hbuilt := (((hstart.execute (.database (.logHyp "a.1" ⟨["x"]⟩)) {}).execute
    (.database (.logHyp "a.2" ⟨["x"]⟩)) {}).execute
      (.database (.provable "a" ["a.1", "a.2"] ⟨["y"]⟩)) {})
  have hloaded := hbuilt.loadText
    "$( <MM> <PROOF_ASST> THEOREM=a\n\nh1::a.2 x\nh2:: x\n3:1,2:a y\n\n$)\n"
  have h := (hloaded.execute (.sheet (.renumber ⟨[("1", "4")]⟩)) {}).execute
    (.database (.symbols ["z"])) {}
  exact ⟨_, h, by decide +kernel⟩

end Interpreter

end ProofSheet
