import ProofSheet.Database.Growth
import ProofSheet.Message
import ProofSheet.Worksheet.Page
import ProofSheet.Worksheet.Printing

/-!
What a command answers: an outcome, or the reason why it failed.
-/

namespace ProofSheet

/-- What a command that succeeds answers. -/
inductive Outcome
  | added (labels : List String)
  | loaded (sheet : Worksheet)
  | displayed (sheet : Worksheet) (detail : Detail)
  | renumbered (sheet : Worksheet)
  | exported (path : String)
deriving DecidableEq

namespace Outcome

/-- The first line about a loaded worksheet. -/
def loadedLine (sheet : Worksheet) : String :=
  (if sheet.target.isNew then "new" else "existing") ++ " theorem " ++ sheet.theoremLabel ++
    ": " ++ toString sheet.document.size ++ " steps\n"

/-- The outcome in words. -/
def toText (coloured : Bool) : Outcome → String
  | added labels => "added " ++ " ".intercalate labels
  | loaded sheet => loadedLine sheet ++ sheet.print coloured .headers
  | displayed sheet detail => sheet.print coloured detail
  | renumbered sheet => sheet.print coloured .headers
  | exported path => "exported to " ++ path

end Outcome

/-- Why a command failed. -/
inductive CommandError
  | noWorksheet
  | database (reason : DatabaseError)
  | read (path : String) (fault : StorageFault)
  | load (messages : List Message)
  | exportFailed (reason : ExportError)
deriving DecidableEq

namespace CommandError

/-- The failure in words. -/
def message : CommandError → String
  | noWorksheet => "no worksheet loaded"
  | database reason => reason.message
  | read path fault => "cannot read " ++ path ++ ": " ++ fault.message
  | load messages => String.join (messages.map (·.toTextWithCaret ++ "\n"))
  | exportFailed reason => reason.message

end CommandError

/-- What a command answers. -/
abbrev Answer := Except CommandError Outcome

namespace Answer

/-- The answer in words. -/
def toText (coloured : Bool) : Answer → String
  | .ok outcome => outcome.toText coloured
  | .error e => e.message

end Answer

end ProofSheet
