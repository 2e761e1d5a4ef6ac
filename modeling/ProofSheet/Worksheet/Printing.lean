import ProofSheet.Command.Basic
import ProofSheet.Text.Colour
import ProofSheet.Worksheet.Basic

/-!
Printing a worksheet for a reader at a terminal.  The short form is the headers of the steps, one
a line; the full form is header line, steps and footer.  The headers of hypothesis steps are
green and those of derivation steps cyan, if colours are wanted.
-/

namespace ProofSheet

/-- The header of a step as it is printed. -/
def ProofStep.printedHeader (coloured : Bool) : ProofStep → String
  | .hypothesis s => Text.Colour.green.paintIf coloured s.header
  | .derivation s => Text.Colour.cyan.paintIf coloured s.header

/-- The line that is printed for a step; the full form has the formula behind the header. -/
def ProofStep.printed (coloured : Bool) (detail : Detail) (step : ProofStep) : String :=
  match detail, step.formula? with
  | .full, some formula => step.printedHeader coloured ++ " " ++ formula.toText
  | _, _ => step.printedHeader coloured

/-- The lines that are printed for a worksheet. -/
def Worksheet.printedLines (coloured : Bool) (detail : Detail) (sheet : Worksheet) :
    List String :=
  let steps := sheet.document.steps.map (·.printed coloured detail)
  match detail with
  | .headers => steps
  | .full => [sheet.headerLine] ++ steps ++ [Worksheet.footer]

/-- The worksheet as it is printed, with a line feed between lines. -/
def Worksheet.print (coloured : Bool) (detail : Detail) (sheet : Worksheet) : String :=
  "\n".intercalate (sheet.printedLines coloured detail)

end ProofSheet
