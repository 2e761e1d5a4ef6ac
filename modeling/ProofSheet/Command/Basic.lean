import ProofSheet.Formula
import ProofSheet.Step.Renumbering

/-!
The commands of the program.  Those of the database make it grow, one loads a worksheet, and
those of the sheet work on the worksheet that is loaded.

* `Command.toText`: how a command is written, without the semicolon that ends it.
-/

namespace ProofSheet

/-- A command that makes the database grow. -/
inductive DatabaseCommand
  | symbols (names : List String)
  | logHyp (label : String) (formula : Formula)
  | axiomatic (label : String) (formula : Formula)
  | provable (label : String) (hyps : List String) (formula : Formula)
deriving DecidableEq

/-- How much of a worksheet is printed: the headers of its steps, or all of it. -/
inductive Detail
  | headers
  | full
deriving DecidableEq

/-- A command about the loaded worksheet. -/
inductive SheetCommand
  | display (detail : Detail)
  | renumber (renumbering : Renumbering)
  | exportTo (dir : Option String)
deriving DecidableEq

/-- A command. -/
inductive Command
  | database (command : DatabaseCommand)
  | load (path : String)
  | sheet (command : SheetCommand)
deriving DecidableEq

namespace DatabaseCommand

/-- How the command is written. -/
def toText : DatabaseCommand → String
  | symbols names => "symbol " ++ " ".intercalate names
  | logHyp label formula => "hyp " ++ label ++ " " ++ formula.toText
  | axiomatic label formula => "axiom " ++ label ++ " " ++ formula.toText
  | provable label hyps formula =>
    "theorem " ++ label ++ " [" ++ " ".intercalate hyps ++ "] " ++ formula.toText

end DatabaseCommand

namespace Detail

/-- How the detail is written. -/
def toText : Detail → String
  | headers => "headers"
  | full => "full"

end Detail

namespace SheetCommand

/-- How the command is written. -/
def toText : SheetCommand → String
  | display detail => "show " ++ detail.toText
  | renumber renumbering =>
    "renumber " ++ ", ".intercalate (renumbering.pairs.map fun (old, new) => old ++ "=>" ++ new)
  | exportTo (some dir) => "export " ++ dir
  | exportTo none => "export"

end SheetCommand

namespace Command

/-- How the command is written. -/
def toText : Command → String
  | database command => command.toText
  | load path => "load " ++ path
  | sheet command => command.toText

end Command

end ProofSheet
