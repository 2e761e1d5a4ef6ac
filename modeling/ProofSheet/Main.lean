import ProofSheet.Session
import ProofSheet.Text.Utf8

/-!
The program: a session on the standard input and output, over the files of the computer.
-/

namespace ProofSheet.Terminal

/-- Why the computer's files refused an action. -/
def faultOf : IO.Error → StorageFault
  | .noFileOrDirectory .. => .notFound
  | .inappropriateType _ 21 _ => .isFolder
  | e => .other (toString e)

/-- The result of an action on files, or why it was refused. -/
def attempt {α : Type} (action : IO α) : IO (Except StorageFault α) := do
  match ← action.toBaseIO with
  | .ok a => return .ok a
  | .error e => return .error (faultOf e)

/-- The text of a file, if its bytes are that of a text. -/
def readText (path : String) : IO (Except StorageFault String) := do
  match ← attempt (IO.FS.readBinFile path) with
  | .error fault => return .error fault
  | .ok bytes =>
    match String.fromUTF8? bytes with
    | some text => return .ok text
    | none => return .error (.other "stream did not contain valid UTF-8")

instance : Storage IO where
  read := readText
  write path text := attempt (IO.FS.writeFile path text)

/-- The bytes of the input up to and including the next semicolon. -/
partial def readPiece (input : IO.FS.Stream) (bytes : ByteArray) : IO ByteArray := do
  let next ← input.read 1
  if next.isEmpty then return bytes
  else if next.toList = [0x3B] then return bytes ++ next
  else readPiece input (bytes ++ next)

/-- The session on the rest of the input. -/
partial def loop (input : IO.FS.Stream) (session : Session) : IO UInt32 := do
  match ← attempt (readPiece input .empty) with
  | .error fault =>
    IO.println fault.message
    return 1
  | .ok bytes =>
    match ← session.turn (Text.Utf8.decode bytes.data.toList) with
    | .finished => return 0
    | .rejected output =>
      IO.print output
      IO.println "the input is not a command"
      return 1
    | .answered output next =>
      IO.print output
      (← IO.getStdout).flush
      loop input next

end ProofSheet.Terminal

/-- Runs a session at the terminal, in colours if there is one to show them. -/
def main : IO UInt32 := do
  let coloured ← (← IO.getStdout).isTty
  ProofSheet.Terminal.loop (← IO.getStdin) { coloured }
