import ProofSheet.Formula
import ProofSheet.Text.Line

/-!
The written form of proof steps.  The header of a step holds its number and its reference
fields, and the text of a step is its header followed by its formula.

* `Header.ofHypothesis`: the header of a hypothesis step, an `h`, the step number, two colons and
  the reference label;
* `Header.ofDerivation`: the header of a derivation step, its number, the numbers of the steps that
  it rests on and its reference label, with colons between them;
* `statementText`: a header and a formula on one line.
-/

namespace ProofSheet

namespace Header

/-- The header of a hypothesis step; the last field is empty when there is no label. -/
def ofHypothesis (step : String) (ref : Option String) : String :=
  "h" ++ step ++ "::" ++ ref.getD ""

/-- The header of a derivation step; the last field is empty when there is no label. -/
def ofDerivation (step : String) (hyps : List String) (ref : Option String) : String :=
  step ++ ":" ++ ",".intercalate hyps ++ ":" ++ ref.getD ""

end Header

/-- The header with the formula behind it; a missing or empty formula leaves the header alone. -/
def statementText (header : String) (formula : Option Formula) : String :=
  match formula with
  | some formula => if formula.isEmpty then header else header ++ " " ++ formula.toText
  | none => header

end ProofSheet
