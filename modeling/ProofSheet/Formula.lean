import ProofSheet.Text.WhiteSpace

/-!
Formulas: sequences of math symbols.  Two formulas are the same formula exactly when their
symbols are, however their texts were laid out.

* `Formula.ofText`: the formula of the words of a text;
* `Formula.toText`: the symbols with one space between neighbours.
-/

namespace ProofSheet

/-- A sequence of math symbols. -/
structure Formula where
  symbols : List String
deriving DecidableEq

namespace Formula

/-- The formula whose symbols are the words of a text. -/
def ofText (text : String) : Formula :=
  ⟨Text.words text⟩

/-- The text of a formula: its symbols with one space between neighbours. -/
def toText (formula : Formula) : String :=
  " ".intercalate formula.symbols

/-- The number of symbols. -/
def size (formula : Formula) : Nat :=
  formula.symbols.length

/-- The formula has no symbols. -/
def isEmpty (formula : Formula) : Bool :=
  formula.symbols.isEmpty

end Formula

end ProofSheet
