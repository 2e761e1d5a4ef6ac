import ProofSheet.Proofs.Interpreter.Reachable

/-!
Histories of the interpreter: the state after some calls, read off the calls.

* `Interpreter.Call`, `Interpreter.after`: one call, with the files as it finds them, and the state
  after some calls;
* `Call.text?`: the text of a worksheet that a call gets hold of; a file that cannot be read gives
  none;
* `databaseAfter`, `renumbered`, `exportsOf`: what the calls make of a database and of a worksheet,
  and what the exports among them answer;
* `Messages.Keeps`: the messages are the first ones of two longer lists;
* `Call.next_of_text?`, `Call.next_of_text?_eq_none`: what one call does;
* `Interpreter.after_eq_history`: **the state after any calls**. The last text that was loaded
  settles the worksheet and the messages together with the calls since then, and the commands of
  the database alone settle the database.
-/

namespace ProofSheet

/-! ### Messages up to a limit -/

/-- The message about a worksheet that is refused. -/
def WorksheetError.report (e : WorksheetError) : Message :=
  ⟨.error, e.code, e.message?, e.caret?⟩

/-- The message about an export that fails, if it does. -/
def exportFailure? : Except ExportError String → Option Message
  | .ok _ => none
  | .error e => some ⟨.error, e.code, some e.message, none⟩

/-- The message about an export that succeeds, if it does. -/
def exportSuccess? : Except ExportError String → Option Message
  | .ok path => some ⟨.info, "Export", some ("exported to " ++ path), none⟩
  | .error _ => none

/-- One more element behind the first ones of a list, if there is room for it. -/
lemma ite_take_concat {α : Type} (l : List α) (a : α) (n : Nat) :
    (if n ≤ (l.take n).length then l.take n else l.take n ++ [a]) = (l ++ [a]).take n := by
  rw [List.length_take]
  split
  next hfull =>
    rw [List.take_append_of_le_length (by omega)]
  next hroom =>
    have hlt : l.length < n := by omega
    rw [List.take_of_length_le (by omega), List.take_of_length_le (by simp; omega)]

namespace Messages

variable {messages : Messages} {errors infos : List Message}

/-- The messages are the first of the given ones, up to the limits. -/
structure Keeps (messages : Messages) (errors infos : List Message) : Prop where
  errors : messages.errors = errors.take messages.limits.errors
  infos : messages.infos = infos.take messages.limits.infos

lemma keeps_nil (limits : MessageLimits) : Keeps { limits } [] [] :=
  ⟨List.take_nil.symm, List.take_nil.symm⟩

lemma limits_addError (code : String) (text : Option String) (caret : Option Nat)
    (messages : Messages) : (messages.addError code text caret).limits = messages.limits := by
  rw [addError]
  split <;> rfl

lemma limits_addInfo (code text : String) (messages : Messages) :
    (messages.addInfo code text).limits = messages.limits := by
  rw [addInfo]
  split <;> rfl

lemma Keeps.addError (h : messages.Keeps errors infos) (code : String) (text : Option String)
    (caret : Option Nat) :
    (messages.addError code text caret).Keeps (errors ++ [⟨.error, code, text, caret⟩]) infos := by
  have herrors : (messages.addError code text caret).errors =
      (errors ++ [(⟨.error, code, text, caret⟩ : Message)]).take messages.limits.errors := by
    rw [← ite_take_concat, ← h.errors, Messages.addError, isFull]
    simp only [decide_eq_true_eq]
    split <;> rfl
  refine ⟨by rw [herrors, limits_addError], ?_⟩
  rw [limits_addError, ← h.infos, Messages.addError]
  split <;> rfl

lemma Keeps.addInfo (h : messages.Keeps errors infos) (code text : String) :
    (messages.addInfo code text).Keeps errors (infos ++ [⟨.info, code, some text, none⟩]) := by
  have hinfos : (messages.addInfo code text).infos =
      (infos ++ [(⟨.info, code, some text, none⟩ : Message)]).take messages.limits.infos := by
    rw [← ite_take_concat, ← h.infos, Messages.addInfo, isFullOfInfos]
    simp only [decide_eq_true_eq]
    split <;> rfl
  refine ⟨?_, by rw [hinfos, limits_addInfo]⟩
  rw [limits_addInfo, ← h.errors, Messages.addInfo]
  split <;> rfl

end Messages

namespace Interpreter

/-! ### Calls -/

/-- A call of the interpreter: a command, with the files as it finds them, or a text to load. -/
inductive Call (σ : Type)
  | execute (command : Command) (world : σ)
  | loadText (text : String)

variable {σ : Type}

namespace Call

/-- The state after a call. -/
def next [Storage (StateM σ)] (state : Interpreter) : Call σ → Interpreter
  | execute command world =>
    ((state.execute command : StateM σ (Answer × Interpreter)).run world).1.2
  | loadText text => (state.loadText text).2

/-- The text that a call gets hold of in order to load it. -/
def text? [Storage (StateM σ)] : Call σ → Option String
  | execute (.load path) world => ((Storage.read path : StateM σ _).run world).1.toOption
  | execute _ _ => none
  | loadText text => some text

/-- The command of the database that is called. -/
def databaseCommand? : Call σ → Option DatabaseCommand
  | execute (.database command) _ => some command
  | _ => none

/-- The renumbering that is called for. -/
def renumbering? : Call σ → Option Renumbering
  | execute (.sheet (.renumber m)) _ => some m
  | _ => none

/-- What an export answers if the call is one and the worksheet is loaded. -/
def exported? [Storage (StateM σ)] (config : ExportConfig) (sheet : Worksheet) :
    Call σ → Option (Except ExportError String)
  | execute (.sheet (.exportTo dir)) world =>
    some ((writePage (config.into dir) sheet : StateM σ _).run world).1
  | _ => none

end Call

/-- The state after calls, one after the other. -/
def after [Storage (StateM σ)] (state : Interpreter) (calls : List (Call σ)) : Interpreter :=
  calls.foldl Call.next state

/-- What the commands of the database among the calls make of a database. -/
def databaseAfter (db : Database) (calls : List (Call σ)) : Database :=
  (calls.filterMap (·.databaseCommand?)).foldl (fun db command => (command.run db).2) db

/-- What the renumberings among the calls make of a worksheet. -/
def renumbered (sheet : Worksheet) (calls : List (Call σ)) : Worksheet :=
  (calls.filterMap (·.renumbering?)).foldl (fun sheet m => sheet.renumber m) sheet

/-- What the exports among the calls answer, each for the worksheet as the renumberings in front
of it leave it. -/
def exportsOf [Storage (StateM σ)] (config : ExportConfig) : Worksheet → List (Call σ) →
    List (Except ExportError String)
  | _, [] => []
  | sheet, call :: calls =>
    (call.exported? config sheet).toList ++ exportsOf config (renumbered sheet [call]) calls

lemma databaseAfter_append (db : Database) (calls more : List (Call σ)) :
    databaseAfter db (calls ++ more) = databaseAfter (databaseAfter db calls) more := by
  rw [databaseAfter, List.filterMap_append, List.foldl_append]
  rfl

lemma renumbered_append (sheet : Worksheet) (calls more : List (Call σ)) :
    renumbered sheet (calls ++ more) = renumbered (renumbered sheet calls) more := by
  rw [renumbered, List.filterMap_append, List.foldl_append]
  rfl

/-! ### One call -/

variable [Storage (StateM σ)]

namespace Call

/-- A call that gets hold of a text loads it. -/
lemma next_of_text? {state : Interpreter} {call : Call σ} {text : String}
    (h : call.text? = some text) : call.next state = (state.loadText text).2 := by
  cases call with
  | loadText given =>
      cases h
      rfl
  | execute command world =>
      cases command with
      | database command => cases h
      | sheet command => cases h
      | load path =>
          show ((state.loadFile path : StateM σ (Answer × Interpreter)).run world).1.2 = _
          rw [loadFile, StateT.run_bind]
          rw [text?] at h
          generalize (Storage.read path : StateM σ _).run world = found at h ⊢
          obtain ⟨read, world'⟩ := found
          obtain rfl := Except.eq_ok_of_toOption h
          rfl

/-- Loading a text is no command of the database. -/
lemma databaseAfter_of_text? (call : Call σ) {text : String} (h : call.text? = some text)
    (db : Database) : databaseAfter db [call] = db := by
  cases call with
  | loadText given => rfl
  | execute command world =>
      cases command with
      | load path => rfl
      | database command => cases h
      | sheet command => cases h

end Call

/-- The state has the given parts; of the messages it keeps the first. -/
structure Shows (state : Interpreter) (limits : MessageLimits) (config : ExportConfig)
    (db : Database) (sheet : Option Worksheet) (errors infos : List Message) : Prop where
  database : state.database = db
  worksheet : state.worksheet = sheet
  messages : state.messages.Keeps errors infos
  limits : state.messages.limits = limits
  exportConfig : state.exportConfig = config

/-- What the exports answer if there is a worksheet to export. -/
def answersOf (config : ExportConfig) (sheet : Option Worksheet) (calls : List (Call σ)) :
    List (Except ExportError String) :=
  sheet.elim [] (exportsOf config · calls)

lemma answersOf_cons (config : ExportConfig) (sheet : Option Worksheet) (call : Call σ)
    (calls : List (Call σ)) :
    answersOf config sheet (call :: calls) =
      answersOf config sheet [call] ++ answersOf config (sheet.map (renumbered · [call])) calls := by
  cases sheet with
  | none => rfl
  | some loaded => simp [answersOf, exportsOf]

namespace Shows

variable {state : Interpreter} {limits : MessageLimits} {config : ExportConfig} {db : Database}
  {sheet : Option Worksheet} {errors infos : List Message}

lemma start (db : Database) (limits : MessageLimits) (config : ExportConfig) :
    Shows { database := db, messages := { limits }, exportConfig := config } limits config db none
      [] [] :=
  ⟨rfl, rfl, Messages.keeps_nil limits, rfl, rfl⟩

/-- A text that is loaded drops the worksheet and the messages from before. -/
lemma loadText (h : state.Shows limits config db sheet errors infos) (text : String) :
    match Worksheet.load db text with
    | .error e => (state.loadText text).2.Shows limits config db none [e.report] []
    | .ok loaded => (state.loadText text).2.Shows limits config db (some loaded) [] [] := by
  have hclear : state.messages.clear.Keeps [] [] := Messages.keeps_nil _
  rw [Interpreter.loadText, h.database]
  cases Worksheet.load db text with
  | ok loaded => exact ⟨rfl, rfl, hclear, h.limits, h.exportConfig⟩
  | error e =>
      refine ⟨rfl, rfl, hclear.addError _ _ _, ?_, h.exportConfig⟩
      exact (Messages.limits_addError _ _ _ _).trans h.limits

/-- An export leaves a message, whatever it answers. -/
lemma noteExport (h : state.Shows limits config db sheet errors infos)
    (outcome : Except ExportError String) :
    (state.noteExport outcome).2.Shows limits config db sheet
      (errors ++ [outcome].filterMap exportFailure?)
      (infos ++ [outcome].filterMap exportSuccess?) := by
  cases outcome with
  | ok path =>
      refine ⟨h.database, h.worksheet, ?_, ?_, h.exportConfig⟩
      · rw [show [Except.ok path].filterMap exportFailure? = [] from rfl, List.append_nil]
        exact h.messages.addInfo _ _
      · exact (Messages.limits_addInfo _ _ _).trans h.limits
  | error e =>
      refine ⟨h.database, h.worksheet, ?_, ?_, h.exportConfig⟩
      · rw [show [Except.error e].filterMap exportSuccess? = [] from rfl, List.append_nil]
        exact h.messages.addError _ _ _
      · exact (Messages.limits_addError _ _ _ _).trans h.limits

/-- A call that exports nothing adds nothing to what the messages are the first of. -/
lemma silent {before : Option Worksheet} {call : Call σ}
    (h : state.Shows limits config db sheet errors infos)
    (hcall : ∀ loaded ∈ before, call.exported? config loaded = none) :
    state.Shows limits config db sheet
      (errors ++ (answersOf config before [call]).filterMap exportFailure?)
      (infos ++ (answersOf config before [call]).filterMap exportSuccess?) := by
  have hanswers : answersOf config before [call] = [] := by
    cases before with
    | none => rfl
    | some loaded =>
        rw [answersOf, Option.elim_some, exportsOf, hcall loaded rfl, exportsOf]
        rfl
  rw [hanswers, List.filterMap_nil, List.filterMap_nil, List.append_nil, List.append_nil]
  exact h

/-- The step for a command about a worksheet that is loaded. -/
lemma runSheet {loaded : Worksheet}
    (h : state.Shows limits config db (some loaded) errors infos) (command : SheetCommand)
    (world : σ) :
    ((state.runSheet loaded command : StateM σ (Answer × Interpreter)).run world).1.2.Shows limits
      config db (some (renumbered loaded [Call.execute (.sheet command) world]))
      (errors ++ (answersOf config (some loaded) [Call.execute (.sheet command) world]).filterMap
        exportFailure?)
      (infos ++ (answersOf config (some loaded) [Call.execute (.sheet command) world]).filterMap
        exportSuccess?) := by
  cases command with
  | display detail => exact h.silent fun _ _ => rfl
  | renumber m =>
      have hsheet : (state.renumber loaded m).2.Shows limits config db (some (loaded.renumber m))
          errors infos := ⟨h.database, rfl, h.messages, h.limits, h.exportConfig⟩
      exact hsheet.silent fun _ _ => rfl
  | exportTo dir =>
      obtain rfl := h.exportConfig
      exact h.noteExport _

/-- **The step**: what a call does that gets hold of no text. -/
lemma next (h : state.Shows limits config db sheet errors infos) {call : Call σ}
    (hcall : call.text? = none) :
    (call.next state).Shows limits config (databaseAfter db [call])
      (sheet.map (renumbered · [call]))
      (errors ++ (answersOf config sheet [call]).filterMap exportFailure?)
      (infos ++ (answersOf config sheet [call]).filterMap exportSuccess?) := by
  cases call with
  | loadText text => cases hcall
  | execute command world =>
      cases command with
      | load path =>
          have hstate : Call.next state (.execute (.load path) world) = state := by
            show ((state.loadFile path : StateM σ (Answer × Interpreter)).run world).1.2 = state
            rw [loadFile, StateT.run_bind]
            rw [Call.text?] at hcall
            generalize (Storage.read path : StateM σ _).run world = found at hcall ⊢
            obtain ⟨read, world'⟩ := found
            cases read with
            | ok text => cases hcall
            | error fault => rfl
          have hsheet : sheet.map (renumbered · [Call.execute (.load path) world]) = sheet := by
            cases sheet <;> rfl
          rw [hstate, hsheet]
          exact h.silent fun _ _ => rfl
      | database command =>
          have hstate : Call.next state (.execute (.database command) world) =
              { state with database := (command.run db).2 } := by
            rw [← h.database]
            exact runDatabase_snd state command
          have hsheet : sheet.map (renumbered · [Call.execute (.database command) world]) =
              sheet := by
            cases sheet <;> rfl
          have hnew : Shows { state with database := (command.run db).2 } limits config
              (command.run db).2 sheet errors infos :=
            ⟨rfl, h.worksheet, h.messages, h.limits, h.exportConfig⟩
          rw [hstate, hsheet]
          exact hnew.silent fun _ _ => rfl
      | sheet command =>
          rw [Call.next, Interpreter.execute, h.worksheet]
          cases sheet with
          | none => exact h.silent fun _ hnone => absurd hnone (Option.not_mem_none _)
          | some loaded => exact h.runSheet command world

/-- **The run**: what any calls do that get hold of no text. -/
lemma after (h : state.Shows limits config db sheet errors infos) {calls : List (Call σ)}
    (hcalls : ∀ call ∈ calls, call.text? = none) :
    (Interpreter.after state calls).Shows limits config (databaseAfter db calls)
      (sheet.map (renumbered · calls))
      (errors ++ (answersOf config sheet calls).filterMap exportFailure?)
      (infos ++ (answersOf config sheet calls).filterMap exportSuccess?) := by
  induction calls generalizing state db sheet errors infos with
  | nil =>
      cases sheet <;>
        simpa [Interpreter.after, databaseAfter, answersOf, exportsOf, renumbered] using h
  | cons call calls ih =>
      obtain ⟨hcall, hcalls⟩ := List.forall_mem_cons.1 hcalls
      have hrest := ih (h.next hcall) hcalls
      have hsheet : (sheet.map (renumbered · [call])).map (renumbered · calls) =
          sheet.map (renumbered · (call :: calls)) := by
        rw [Option.map_map]
        exact congrArg (Option.map · sheet) (funext fun loaded =>
          (renumbered_append loaded [call] calls).symm)
      rw [hsheet, ← databaseAfter_append, List.append_assoc, List.append_assoc,
        ← List.filterMap_append, ← List.filterMap_append, ← answersOf_cons] at hrest
      exact hrest

/-- Whatever calls come, the database is what the commands of the database make of it. -/
lemma exists_after (h : state.Shows limits config db sheet errors infos) (calls : List (Call σ)) :
    ∃ sheet errors infos,
      (Interpreter.after state calls).Shows limits config (databaseAfter db calls) sheet errors
        infos := by
  induction calls generalizing state db sheet errors infos with
  | nil => exact ⟨sheet, errors, infos, h⟩
  | cons call calls ih =>
      rw [← List.singleton_append, databaseAfter_append]
      cases hcall : call.text? with
      | none => exact ih (h.next hcall)
      | some text =>
          rw [call.databaseAfter_of_text? hcall]
          have hload := h.loadText text
          rw [← Call.next_of_text? hcall] at hload
          cases hread : Worksheet.load db text with
          | error e =>
              rw [hread] at hload
              exact ih hload
          | ok loaded =>
              rw [hread] at hload
              exact ih hload

end Shows

/-- **The state after any calls.** The database is what the commands of the database make of the
first one, whatever other calls there are. As long as no call gets hold of a text there is no
worksheet, and there are no messages. Otherwise the last such call counts: if its text was refused
by the database as it was then, there is no worksheet, and the one message says why; if not, its
worksheet is there, as the renumberings since then leave it, and the messages are the first ones
about the exports since then. -/
theorem after_eq_history (db : Database) (limits : MessageLimits) (config : ExportConfig)
    (calls : List (Call σ)) :
    let final := after { database := db, messages := { limits }, exportConfig := config } calls
    final.database = databaseAfter db calls ∧
      ((∀ call ∈ calls, call.text? = none) →
        final.worksheet = none ∧ final.messages.errors = [] ∧ final.messages.infos = []) ∧
      ∀ earlier load later text, calls = earlier ++ load :: later → load.text? = some text →
        (∀ call ∈ later, call.text? = none) →
          match Worksheet.load (databaseAfter db earlier) text with
          | .error e =>
            final.worksheet = none ∧ final.messages.errors = [e.report].take limits.errors ∧
              final.messages.infos = []
          | .ok sheet =>
            final.worksheet = some (renumbered sheet later) ∧
              final.messages.errors =
                ((exportsOf config sheet later).filterMap exportFailure?).take limits.errors ∧
              final.messages.infos =
                ((exportsOf config sheet later).filterMap exportSuccess?).take limits.infos := by
  intro final
  have hstart := Shows.start db limits config
  obtain ⟨_, _, _, hfinal⟩ := hstart.exists_after calls
  refine ⟨hfinal.database, fun hcalls => ?_, ?_⟩
  · have hnone := hstart.after hcalls
    refine ⟨hnone.worksheet, ?_, ?_⟩
    · rw [hnone.messages.errors]
      exact List.take_nil
    · rw [hnone.messages.infos]
      exact List.take_nil
  · rintro earlier load later text rfl hload hlater
    have hsplit : final = after (load.next (after _ earlier)) later := List.foldl_append
    obtain ⟨_, _, _, hearlier⟩ := hstart.exists_after earlier
    have hloaded := hearlier.loadText text
    rw [← Call.next_of_text? hload] at hloaded
    rw [hsplit]
    cases hread : Worksheet.load (databaseAfter db earlier) text with
    | error e =>
        rw [hread] at hloaded
        have h := hloaded.after hlater
        refine ⟨h.worksheet, ?_, ?_⟩
        · rw [h.messages.errors, h.limits]
          rfl
        · rw [h.messages.infos]
          exact List.take_nil
    | ok sheet =>
        rw [hread] at hloaded
        have h := hloaded.after hlater
        refine ⟨h.worksheet, ?_, ?_⟩
        · rw [h.messages.errors, h.limits]
          rfl
        · rw [h.messages.infos, h.limits]
          rfl

/-- A refused text, a file that is missing and a file that is loaded; then three exports, two of
them to a folder that is missing, a renumbering and one more symbol. One error is kept. -/
theorem after_eq_history_reloaded :
    ∃ earlier later : List (Call FileSystem), ∃ load : Call FileSystem,
      (∀ call ∈ later, call.text? = none) ∧
        let final := after { messages := { limits := { errors := 1 } } } (earlier ++ load :: later)
        final.database.statements.map (·.label) = ["h"] ∧ final.database.symbols = ["z"] ∧
          final.worksheet = some ⟨.fresh "t", none,
            ⟨[.derivation ⟨"2", [], none, some ⟨["y"]⟩, "2:: y", 1⟩]⟩⟩ ∧
          final.messages.errors.map (·.code) = ["Io"] ∧
          final.messages.infos.map (·.text) = [some "exported to ./t.html"] := by
  let text : String := "$( <MM> <PROOF_ASST> THEOREM=t\n1:: y\n$)"
  let earlier : List (Call FileSystem) := [.execute (.database (.logHyp "h" ⟨["x"]⟩)) {},
    .loadText "1:: y", .execute (.load "t.mmp") {}]
  let load : Call FileSystem := .execute (.load "t.mmp") { files := [(["t.mmp"], text)] }
  let later : List (Call FileSystem) := [.execute (.sheet (.exportTo (some "out"))) {},
    .execute (.sheet (.renumber ⟨[("1", "2")]⟩)) {}, .execute (.database (.symbols ["z"])) {},
    .execute (.sheet (.exportTo none)) {}, .execute (.sheet (.exportTo (some "out"))) {}]
  have hlater : ∀ call ∈ later, call.text? = none := by simp [later, Call.text?]
  obtain ⟨hdb, -, hloaded⟩ := after_eq_history {} { errors := 1 } {} (earlier ++ load :: later)
  have hload : Worksheet.load (databaseAfter {} earlier) text = .ok ⟨.fresh "t", none,
      ⟨[.derivation ⟨"1", [], none, some ⟨["y"]⟩, "1:: y", 1⟩]⟩⟩ :=
    Except.eq_ok_of_toOption (by decide +kernel)
  have hfinal := hloaded earlier load later text rfl (by decide +kernel) hlater
  rw [hload] at hfinal
  obtain ⟨hsheet, herrors, hinfos⟩ := hfinal
  refine ⟨earlier, later, load, hlater, ?_, ?_, ?_, ?_, ?_⟩
  · rw [hdb]
    decide +kernel
  · rw [hdb]
    decide +kernel
  · rw [hsheet]
    decide +kernel
  · rw [herrors]
    decide +kernel
  · rw [hinfos]
    decide +kernel

end Interpreter

end ProofSheet
