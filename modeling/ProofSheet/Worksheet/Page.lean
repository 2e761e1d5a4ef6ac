import ProofSheet.Storage.Basic
import ProofSheet.Storage.Path
import ProofSheet.Text.Entity
import ProofSheet.Text.Splice
import ProofSheet.Worksheet.Basic

/-!
Exporting a worksheet as a markup page: the texts of its steps, escaped, inside a fixed frame.

* `ExportConfig`: the frame, and where the page goes;
* `Worksheet.page`: the text of the page; an empty worksheet has none, nor has one with a
  derivation step that lacks its formula;
* `ExportConfig.outputPath`: the path of the page.
-/

namespace ProofSheet

/-! ### The frame -/

/-- What stands in the frame for the label of the theorem. -/
def theoremPlaceholder : String := "\x7btheorem\x7d"

/-- The frame of a page, and where it is written. -/
structure ExportConfig where
  outputDir : String := "."
  fileType : String := ".html"
  preamble : String :=
    "<html>\n<head>\n<title>" ++ theoremPlaceholder ++ "</title>\n</head>\n<body>\n<pre>\n"
  postamble : String := "</pre>\n</body>\n</html>\n"
deriving DecidableEq

namespace ExportConfig

/-- The same frame, written into the given folder if there is one. -/
def into (config : ExportConfig) (dir : Option String) : ExportConfig :=
  { config with outputDir := dir.getD config.outputDir }

/-- The path of the page of a theorem. -/
def outputPath (config : ExportConfig) (theoremLabel : String) : String :=
  Path.join config.outputDir (theoremLabel ++ config.fileType)

end ExportConfig

/-! ### Failures -/

/-- Why a worksheet is not exported. -/
inductive ExportError
  | emptyWorksheet (theoremLabel : String)
  | incompleteStep (theoremLabel step : String)
  | storage (path : String) (fault : StorageFault)
deriving DecidableEq

namespace ExportError

/-- The name of the kind of failure. -/
def code : ExportError → String
  | emptyWorksheet _ => "EmptyWorksheet"
  | incompleteStep _ _ => "IncompleteStep"
  | storage _ _ => "Io"

/-- The failure in words. -/
def message : ExportError → String
  | emptyWorksheet theoremLabel =>
    "theorem " ++ theoremLabel ++ ": the worksheet has no proof steps to export"
  | incompleteStep theoremLabel step =>
    "theorem " ++ theoremLabel ++ " step " ++ step ++ ": the step has no formula"
  | storage path fault => "cannot write " ++ path ++ ": " ++ fault.message

end ExportError

/-! ### The page -/

/-- A piece of the frame with the label of the theorem filled in. -/
def fillIn (theoremLabel piece : String) : String :=
  Text.replaceAll piece theoremPlaceholder (Text.escape theoremLabel)

/-- The line of a step on a page. -/
def ProofStep.pageLine (step : ProofStep) : String :=
  Text.escape step.text ++ "\n"

/-- The first step without a formula. -/
def Document.firstIncomplete? (doc : Document) : Option ProofStep :=
  doc.steps.find? fun step => step.formula?.isNone

/-- The text of the page. -/
def Worksheet.page (config : ExportConfig) (sheet : Worksheet) : Except ExportError String :=
  if sheet.document.steps.isEmpty then .error (.emptyWorksheet sheet.theoremLabel)
  else
    match sheet.document.firstIncomplete? with
    | some step => .error (.incompleteStep sheet.theoremLabel step.step)
    | none =>
      .ok (fillIn sheet.theoremLabel config.preamble ++
        String.join (sheet.document.steps.map (·.pageLine)) ++
        fillIn sheet.theoremLabel config.postamble)

end ProofSheet
