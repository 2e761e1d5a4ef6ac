/-!
Why a hypothesis step does not resolve.  An error names the theorem and the step, and says where
the cursor belongs, counted from the start of the statement.
-/

namespace ProofSheet

/-- What is wrong with a hypothesis step. -/
inductive LoadFault
  | missingFormula
  | referenceNotFound (label : String)
  | referenceNotLogHyp (label : String)
  | logHypMismatch (label : String)
  | hypothesisFormulaMismatch (label : String)
  | hypothesisFormulaNotFound
  | duplicateHypothesisFormula
  | duplicateRefLabel (label : String)
  | labelAlreadyExists (label : String)
  | invalidLabelCharacters (label : String)
  | prohibitedLabel (label : String)
deriving DecidableEq

namespace LoadFault

/-- The name of the kind of fault. -/
def code : LoadFault → String
  | missingFormula => "MissingFormula"
  | referenceNotFound _ => "ReferenceNotFound"
  | referenceNotLogHyp _ => "ReferenceNotLogHyp"
  | logHypMismatch _ => "LogHypMismatch"
  | hypothesisFormulaMismatch _ => "HypothesisFormulaMismatch"
  | hypothesisFormulaNotFound => "HypothesisFormulaNotFound"
  | duplicateHypothesisFormula => "DuplicateHypothesisFormula"
  | duplicateRefLabel _ => "DuplicateRefLabel"
  | labelAlreadyExists _ => "LabelAlreadyExists"
  | invalidLabelCharacters _ => "InvalidLabelCharacters"
  | prohibitedLabel _ => "ProhibitedLabel"

/-- The fault in words. -/
def message : LoadFault → String
  | missingFormula => "a formula is required for a hypothesis step"
  | referenceNotFound label => "Ref label " ++ label ++ " not found in the database"
  | referenceNotLogHyp label => "Ref label " ++ label ++ " is not a logical hypothesis"
  | logHypMismatch label =>
    "Ref label " ++ label ++ " is not one of the theorem's logical hypotheses"
  | hypothesisFormulaMismatch label =>
    "formula does not match the formula of logical hypothesis " ++ label
  | hypothesisFormulaNotFound =>
    "formula does not match any logical hypothesis of the theorem"
  | duplicateHypothesisFormula =>
    "every logical hypothesis with this formula is already used by an earlier hypothesis step"
  | duplicateRefLabel label => "Ref label " ++ label ++ " is already used by another proof step"
  | labelAlreadyExists label => "Ref label " ++ label ++ " already exists in the database"
  | invalidLabelCharacters label =>
    "Ref label " ++ label ++ " contains characters not allowed in a label"
  | prohibitedLabel label => "Ref label " ++ label ++ " is on the list of prohibited labels"

end LoadFault

/-- A hypothesis step that does not resolve. -/
structure LoadError where
  theoremLabel : String
  step : String
  fault : LoadFault
  caret : Nat
deriving DecidableEq

namespace LoadError

/-- The step, its fault and the place of the cursor, in words. -/
def message (e : LoadError) : String :=
  "Theorem " ++ e.theoremLabel ++ " Step " ++ e.step ++ ": " ++ e.fault.message ++
    " (caret " ++ toString e.caret ++ ")"

end LoadError

end ProofSheet
