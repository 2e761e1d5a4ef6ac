import ProofSheet.Interpreter.Basic
import ProofSheet.Reading.Command
import ProofSheet.Text.Line

/-!
Sessions at a terminal: commands are read one by one, each up to its semicolon, and every answer
is printed.

* `cutBehind`, `cutCommands`: an input cut behind every semicolon;
* `Session.turn`: one piece of input, and what is printed for it;
* `Session.run`: a whole input.  A piece of white space ends the session well, and a piece that
  is no command ends it badly.
-/

namespace ProofSheet

/-! ### Pieces of input -/

/-- A list cut behind every `stop`; what stands behind the last one is a piece if there is
anything. -/
def cutBehind {α : Type} [DecidableEq α] (stop : α) : List α → List (List α)
  | [] => []
  | a :: rest =>
    if a = stop then [a] :: cutBehind stop rest
    else
      match cutBehind stop rest with
      | [] => [[a]]
      | piece :: more => (a :: piece) :: more

/-- The input cut behind every semicolon. -/
def cutCommands (input : String) : List String :=
  (cutBehind ';' input.toList).map String.ofList

/-! ### One turn -/

/-- The state of a session, and whether it writes in colours. -/
structure Session where
  coloured : Bool := false
  interpreter : Interpreter := {}

/-- What becomes of a piece of input. -/
inductive Turn
  /-- Nothing but white space: the session is over. -/
  | finished
  /-- No command: what is printed before the session breaks off. -/
  | rejected (output : String)
  /-- A command: what is printed, and the session behind it. -/
  | answered (output : String) (next : Session)

namespace Session

/-- The line that shows what is loaded. -/
def banner (session : Session) : String :=
  match session.interpreter.worksheet with
  | none => "---database---\n"
  | some sheet => "---worksheet " ++ sheet.theoremLabel ++ "---\n"

/-- The word for success or failure. -/
def verdict (coloured : Bool) : Answer → String
  | .ok _ => Text.Colour.blue.paintIf coloured "SUCC"
  | .error _ => Text.Colour.red.paintIf coloured "FAIL"

/-- What is printed for a command and its answer: the command, the verdict, and the answer with
a mark before each line. -/
def report (coloured : Bool) (command : Command) (answer : Answer) : String :=
  command.toText ++ "\n" ++ verdict coloured answer ++ "\n" ++
    Text.quoted "> " (answer.toText coloured) ++ "\n"

variable {m : Type → Type} [Monad m] [Storage m]

/-- What becomes of a piece of input. -/
def turn (session : Session) (piece : String) : m Turn := do
  let text := Text.trim piece
  if text = "" then return .finished
  match Command.ofText? text with
  | none => return .rejected session.banner
  | some command =>
    let (answer, interpreter) ← session.interpreter.execute command
    return .answered (session.banner ++ report session.coloured command answer)
      { session with interpreter }

/-! ### Whole inputs -/

/-- What a session printed, and its exit code. -/
structure Transcript where
  output : String
  exitCode : Nat
deriving DecidableEq

/-- The session on pieces of input, up to the first that ends it. -/
def runPieces (session : Session) : List String → m Transcript
  | [] => return ⟨"", 0⟩
  | piece :: rest => do
    match ← session.turn piece with
    | .finished => return ⟨"", 0⟩
    | .rejected output => return ⟨output, 1⟩
    | .answered output next =>
      let transcript ← next.runPieces rest
      return { transcript with output := output ++ transcript.output }

/-- The session on a whole input. -/
def run (session : Session) (input : String) : m Transcript :=
  session.runPieces (cutCommands input)

end Session

end ProofSheet
