import ProofSheet.Step.Draft

/-!
A worksheet as it was read: the fields of its header line and its steps.  Nothing in it has been
checked against a database.
-/

namespace ProofSheet

/-- A worksheet as it was read. -/
structure WorksheetDraft where
  theoremLabel : Option String
  locAfter : Option String
  steps : List StepDraft
deriving DecidableEq

end ProofSheet
