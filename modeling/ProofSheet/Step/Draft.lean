import ProofSheet.ParseTree

/-!
Drafts: steps as they were read from a worksheet, before any of them is checked against a
database.  A draft remembers where its statement stood, for the editor to put its cursor there.
-/

namespace ProofSheet

/-- Where a statement stood: offsets into the text of the worksheet, in characters. -/
structure Caret where
  /-- The characters before the end of the statement. -/
  currentChar : Nat := 0
  /-- The characters before the start of the statement. -/
  lineStart : Nat := 0
deriving DecidableEq

namespace Caret

/-- The place of the cursor, counted from one at the start of the statement. -/
def offset (caret : Caret) : Nat :=
  caret.currentChar + 1 - caret.lineStart

end Caret

/-- A hypothesis step as it was read. -/
structure HypothesisDraft where
  step : String
  ref : Option String
  formula : Option Formula
  tree : Option ParseTree := none
  caret : Caret := {}
deriving DecidableEq

/-- A derivation step as it was read. -/
structure DerivationDraft where
  step : String
  hyps : List String
  ref : Option String
  formula : Option Formula
  caret : Caret := {}
deriving DecidableEq

/-- A step as it was read. -/
inductive StepDraft
  | hypothesis (draft : HypothesisDraft)
  | derivation (draft : DerivationDraft)
deriving DecidableEq

end ProofSheet
