import ProofSheet.Interpreter.Outcome

/-!
The interpreter of commands: a database, at most one loaded worksheet, and the messages about
it.

* `DatabaseCommand.run`: the database after a command, and what the command answers;
* `Interpreter.loadText`: a worksheet loaded from scratch; a refused text leaves none loaded;
* `Interpreter.execute`: any command, over any storage of files.
-/

namespace ProofSheet

/-! ### Commands of the database -/

namespace Database

/-- The database with symbols added one by one.  The first one that is refused ends this, and
those before it stay. -/
def addSymbols (db : Database) : List String → Except DatabaseError Unit × Database
  | [] => (.ok (), db)
  | symbol :: rest =>
    match db.addSymbol symbol with
    | .ok db' => db'.addSymbols rest
    | .error e => (.error e, db)

/-- The database after an addition, or as it was when the addition is refused. -/
def orStay (db : Database) : Except DatabaseError Database → Except DatabaseError Unit × Database
  | .ok db' => (.ok (), db')
  | .error e => (.error e, db)

end Database

namespace DatabaseCommand

/-- The words that a command adds. -/
def labels : DatabaseCommand → List String
  | symbols names => names
  | logHyp label _ => [label]
  | axiomatic label _ => [label]
  | provable label _ _ => [label]

/-- The database after a command. -/
def run (db : Database) : DatabaseCommand → Except DatabaseError Unit × Database
  | symbols names => db.addSymbols names
  | logHyp label formula => db.orStay (db.addLogHyp label formula)
  | axiomatic label formula => db.orStay (db.addAxiomatic label formula)
  | provable label hyps formula => db.orStay (db.addTheorem label hyps formula)

end DatabaseCommand

/-! ### The interpreter -/

/-- A database, at most one loaded worksheet, and the messages about it. -/
structure Interpreter where
  database : Database := {}
  worksheet : Option Worksheet := none
  messages : Messages := {}
  exportConfig : ExportConfig := {}

namespace Interpreter

/-- A command of the database; the worksheet and the messages stay as they are. -/
def runDatabase (state : Interpreter) (command : DatabaseCommand) : Answer × Interpreter :=
  match command.run state.database with
  | (.ok (), database) => (.ok (.added command.labels), { state with database })
  | (.error e, database) => (.error (.database e), { state with database })

/-- Loads the worksheet of a text.  The worksheet and the messages from before are dropped, even
if the text is refused. -/
def loadText (state : Interpreter) (text : String) : Answer × Interpreter :=
  let messages := state.messages.clear
  match Worksheet.load state.database text with
  | .ok sheet =>
    (.ok (.loaded sheet), { state with worksheet := some sheet, messages })
  | .error e =>
    let messages := messages.addWorksheetError e
    (.error (.load messages.errors), { state with worksheet := none, messages })

/-- Renumbers the loaded worksheet. -/
def renumber (state : Interpreter) (sheet : Worksheet) (m : Renumbering) :
    Answer × Interpreter :=
  let sheet := sheet.renumber m
  (.ok (.renumbered sheet), { state with worksheet := some sheet })

/-- The state after an export, which leaves a message either way. -/
def noteExport (state : Interpreter) : Except ExportError String → Answer × Interpreter
  | .ok path =>
    let messages := state.messages.addInfo "Export" ("exported to " ++ path)
    (.ok (.exported path), { state with messages })
  | .error e =>
    let messages := state.messages.addError e.code (some e.message) none
    (.error (.exportFailed e), { state with messages })

variable {m : Type → Type} [Monad m] [Storage m]

/-- Writes the page of a worksheet and answers its path. -/
def writePage (config : ExportConfig) (sheet : Worksheet) : m (Except ExportError String) :=
  match sheet.page config with
  | .error e => return .error e
  | .ok text => do
    let path := config.outputPath sheet.theoremLabel
    match ← Storage.write path text with
    | .ok () => return .ok path
    | .error fault => return .error (.storage path fault)

/-- Exports a worksheet, into the given folder or else the configured one. -/
def exportSheet (state : Interpreter) (sheet : Worksheet) (dir : Option String) :
    m (Answer × Interpreter) := do
  return state.noteExport (← writePage (state.exportConfig.into dir) sheet)

/-- Loads the worksheet of a file; a file that cannot be read changes nothing. -/
def loadFile (state : Interpreter) (path : String) : m (Answer × Interpreter) := do
  match ← Storage.read path with
  | .ok text => return state.loadText text
  | .error fault => return (.error (.read path fault), state)

/-- A command about a worksheet, the one that is loaded. -/
def runSheet (state : Interpreter) (sheet : Worksheet) : SheetCommand → m (Answer × Interpreter)
  | .display detail => return (.ok (.displayed sheet detail), state)
  | .renumber renumbering => return state.renumber sheet renumbering
  | .exportTo dir => state.exportSheet sheet dir

/-- What a command answers, and the state that it leaves. -/
def execute (state : Interpreter) : Command → m (Answer × Interpreter)
  | .database command => return state.runDatabase command
  | .load path => state.loadFile path
  | .sheet command =>
    match state.worksheet with
    | none => return (.error .noWorksheet, state)
    | some sheet => state.runSheet sheet command

end Interpreter

end ProofSheet
