import ProofSheet.Worksheet.Basic

/-!
Messages for the user.  Errors and infos are kept apart, each up to a limit; what does not fit
is dropped.

* `Messages.addError`, `Messages.addInfo`: one more message, if it fits;
* `Messages.lastCaret?`: the place of the cursor that the latest error with a place gives;
* `Messages.toText`: the errors and then the infos, one a line.
-/

namespace ProofSheet

/-! ### One message -/

/-- How grave a message is. -/
inductive Severity
  | error
  | info
deriving DecidableEq

namespace Severity

/-- The letter of a severity. -/
def letter : Severity → String
  | error => "E"
  | info => "I"

end Severity

/-- A message for the user. -/
structure Message where
  severity : Severity
  code : String
  /-- The message in words; a text that the grammar refuses is reported without any. -/
  text : Option String
  /-- The place of the cursor, counted from the start of the statement. -/
  caret : Option Nat
deriving DecidableEq

namespace Message

/-- The message on one line. -/
def toText (message : Message) : String :=
  message.severity.letter ++ "-" ++ message.code ++ " " ++
    message.text.getD "the text does not follow the grammar of worksheets"

/-- The message on one line, with the place of the cursor behind it. -/
def toTextWithCaret (message : Message) : String :=
  match message.caret with
  | some caret => message.toText ++ " [caret " ++ toString caret ++ "]"
  | none => message.toText

end Message

/-! ### Lists of messages -/

/-- How many messages are kept. -/
structure MessageLimits where
  errors : Nat := 15
  infos : Nat := 30
deriving DecidableEq

/-- The messages kept for the user. -/
structure Messages where
  limits : MessageLimits := {}
  errors : List Message := []
  infos : List Message := []
deriving DecidableEq

namespace Messages

/-- No further error fits. -/
def isFull (messages : Messages) : Bool :=
  messages.limits.errors ≤ messages.errors.length

/-- No further info fits. -/
def isFullOfInfos (messages : Messages) : Bool :=
  messages.limits.infos ≤ messages.infos.length

/-- The messages with one more error, if it fits. -/
def addError (code : String) (text : Option String) (caret : Option Nat) (messages : Messages) :
    Messages :=
  if messages.isFull then messages
  else { messages with errors := messages.errors ++ [⟨.error, code, text, caret⟩] }

/-- The messages with one more info, if it fits. -/
def addInfo (code text : String) (messages : Messages) : Messages :=
  if messages.isFullOfInfos then messages
  else { messages with infos := messages.infos ++ [⟨.info, code, some text, none⟩] }

/-- The messages with the error that refuses a worksheet, if it fits. -/
def addWorksheetError (e : WorksheetError) (messages : Messages) : Messages :=
  messages.addError e.code e.message? e.caret?

/-- The place of the cursor that the latest error with a place gives. -/
def lastCaret? (messages : Messages) : Option Nat :=
  messages.errors.reverse.findSome? (·.caret)

/-- The errors, and then the infos. -/
def all (messages : Messages) : List Message :=
  messages.errors ++ messages.infos

/-- No messages, under the same limits. -/
def clear (messages : Messages) : Messages :=
  { limits := messages.limits }

/-- The errors and then the infos, one a line. -/
def toText (messages : Messages) : String :=
  String.join (messages.all.map (·.toText ++ "\n"))

end Messages

end ProofSheet
