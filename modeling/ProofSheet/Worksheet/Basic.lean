import ProofSheet.Reading.Worksheet
import ProofSheet.Resolution.Hypothesis

/-!
Worksheets whose steps have all been resolved.  A worksheet is loaded from a text as a whole:
its steps are settled in document order, and the first one that does not resolve refuses the
text.

* `Worksheet.ofDraft`, `Worksheet.load`: the worksheet of a draft and of a text;
* `WorksheetError`: why a text is refused;
* `Worksheet.toText`: the text of a worksheet.
-/

namespace ProofSheet

/-! ### Refusals -/

/-- Why a text is refused as a worksheet. -/
inductive WorksheetError
  /-- The text does not follow the grammar. -/
  | malformed
  /-- The header line names no theorem. -/
  | theoremRequired
  | notATheorem (reason : NotATheorem)
  | load (e : LoadError)
deriving DecidableEq

namespace WorksheetError

/-- The name of the kind of refusal. -/
def code : WorksheetError → String
  | malformed => "Parse"
  | theoremRequired => "Parse"
  | notATheorem _ => "NotATheorem"
  | load e => e.fault.code

/-- The refusal in words; the grammar gives none of its own. -/
def message? : WorksheetError → Option String
  | malformed => none
  | theoremRequired => some "THEOREM= is required in the header"
  | notATheorem reason => some reason.message
  | load e => some e.message

/-- The place of the cursor, if a statement is to blame. -/
def caret? : WorksheetError → Option Nat
  | load e => some e.caret
  | _ => none

end WorksheetError

/-! ### Loading -/

/-- The step of a derivation draft: it is taken as it was written. -/
def DerivationDraft.toStep (draft : DerivationDraft) : DerivationStep :=
  .ofFields draft.step draft.hyps draft.ref draft.formula

/-- A worksheet whose steps have all been resolved. -/
structure Worksheet where
  target : Target
  locAfter : Option String
  document : Document
deriving DecidableEq

namespace Worksheet

/-- The document with the drafts settled one by one behind its steps. -/
def loadSteps (db : Database) (target : Target) (doc : Document) :
    List StepDraft → Except LoadError Document
  | [] => .ok doc
  | .hypothesis draft :: rest =>
    match Resolution.resolve db target doc draft with
    | .error e => .error e
    | .ok step => loadSteps db target (doc.push (.hypothesis step)) rest
  | .derivation draft :: rest =>
    loadSteps db target (doc.push (.derivation draft.toStep)) rest

/-- The worksheet of a draft. -/
def ofDraft (db : Database) (draft : WorksheetDraft) : Except WorksheetError Worksheet := do
  match draft.theoremLabel with
  | none => .error .theoremRequired
  | some label =>
    let target ← (Target.ofLabel db label).mapError .notATheorem
    let document ← (loadSteps db target {} draft.steps).mapError .load
    return { target, locAfter := draft.locAfter, document }

/-- The worksheet of a text. -/
def load (db : Database) (text : String) : Except WorksheetError Worksheet :=
  match WorksheetDraft.ofText? text with
  | none => .error .malformed
  | some draft => ofDraft db draft

/-! ### Steps and text -/

/-- The label of the theorem. -/
def theoremLabel (sheet : Worksheet) : String :=
  sheet.target.label

/-- The worksheet with every step renumbered. -/
def renumber (m : Renumbering) (sheet : Worksheet) : Worksheet :=
  { sheet with document := sheet.document.renumber m }

/-- The worksheet with the text of every step written anew. -/
def layOut (sheet : Worksheet) : Worksheet :=
  { sheet with document := sheet.document.layOut }

/-- What a header line begins with. -/
def headerMark : String := "$( <MM> <PROOF_ASST>"

/-- The line that ends a worksheet. -/
def footer : String := "$)"

/-- The header line. -/
def headerLine (sheet : Worksheet) : String :=
  headerMark ++ " THEOREM=" ++ sheet.theoremLabel ++
    match sheet.locAfter with
    | some label => " LOC_AFTER=" ++ label
    | none => ""

/-- The text of the worksheet: header line, empty line, the steps, empty line, footer. -/
def toText (sheet : Worksheet) : String :=
  sheet.headerLine ++ "\n\n" ++ String.join (sheet.document.texts.map (· ++ "\n")) ++ "\n" ++
    footer ++ "\n"

end Worksheet

end ProofSheet
