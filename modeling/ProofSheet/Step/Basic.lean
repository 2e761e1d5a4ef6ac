import ProofSheet.ParseTree
import ProofSheet.Database.Basic
import ProofSheet.Step.Header
import ProofSheet.Step.Renumbering
import ProofSheet.Text.Splice

/-!
The steps of a proof.  A hypothesis step stands for a logical hypothesis of the theorem, a
derivation step follows from earlier steps.  Every step keeps its written text and the number
of lines that the text filled when it was last laid out.

* `HypothesisStep.layOut`, `DerivationStep.layOut`: the text written anew from the fields;
* `HypothesisStep.renumber`, `DerivationStep.renumber`: new numbers, put into the text in place.
-/

namespace ProofSheet

/-! ### Hypothesis steps -/

/-- A hypothesis step whose label has been settled. -/
structure HypothesisStep where
  step : String
  ref : String
  formula : Formula
  tree : ParseTree
  /-- The logical hypothesis that the step stands for; a new theorem has none yet. -/
  bound : Option StatementId
  text : String
  lineCount : Nat
deriving DecidableEq

namespace HypothesisStep

/-- The header of the step. -/
def header (s : HypothesisStep) : String :=
  Header.ofHypothesis s.step (some s.ref)

/-- The step with its text written anew from its fields. -/
def layOut (s : HypothesisStep) : HypothesisStep :=
  let text := statementText s.header (some s.formula)
  { s with text, lineCount := Text.lineCount text }

/-- The step with the given fields, laid out. -/
def ofFields (step ref : String) (formula : Formula) (tree : ParseTree)
    (bound : Option StatementId) : HypothesisStep :=
  layOut { step, ref, formula, tree, bound, text := "", lineCount := 0 }

/-- The step with another number, and the new header in place of the old one in its text. -/
def withStep (s : HypothesisStep) (step : String) : HypothesisStep :=
  let header := Header.ofHypothesis step (some s.ref)
  { s with step, text := Text.replaceFront s.text s.header header }

/-- The renumbered step: nothing but the number and the text changes. -/
def renumber (m : Renumbering) (s : HypothesisStep) : HypothesisStep :=
  match m.target? s.step with
  | some step => s.withStep step
  | none => s

end HypothesisStep

/-! ### Derivation steps -/

/-- A derivation step, as it was written. -/
structure DerivationStep where
  step : String
  hyps : List String
  ref : Option String
  formula : Option Formula
  text : String
  lineCount : Nat
deriving DecidableEq

namespace DerivationStep

/-- The header of the step. -/
def header (s : DerivationStep) : String :=
  Header.ofDerivation s.step s.hyps s.ref

/-- The step with its text written anew from its fields. -/
def layOut (s : DerivationStep) : DerivationStep :=
  let text := statementText s.header s.formula
  { s with text, lineCount := Text.lineCount text }

/-- The step with the given fields, laid out. -/
def ofFields (step : String) (hyps : List String) (ref : Option String)
    (formula : Option Formula) : DerivationStep :=
  layOut { step, hyps, ref, formula, text := "", lineCount := 0 }

/-- The step with other numbers, and the new header in place of the old one in its text. -/
def withNumbers (s : DerivationStep) (step : String) (hyps : List String) : DerivationStep :=
  let header := Header.ofDerivation step hyps s.ref
  { s with step, hyps, text := Text.replaceFront s.text s.header header }

/-- The renumbered step; the numbers of the steps that it rests on follow the renumbering. -/
def renumber (m : Renumbering) (s : DerivationStep) : DerivationStep :=
  if (s.step :: s.hyps).any m.names then s.withNumbers (m.apply s.step) (s.hyps.map m.apply)
  else s

end DerivationStep

/-! ### Steps of either kind -/

/-- A step of a proof. -/
inductive ProofStep
  | hypothesis (s : HypothesisStep)
  | derivation (s : DerivationStep)
deriving DecidableEq

namespace ProofStep

/-- The step number. -/
def step : ProofStep → String
  | hypothesis s => s.step
  | derivation s => s.step

/-- The reference label, which a derivation step may lack. -/
def ref? : ProofStep → Option String
  | hypothesis s => some s.ref
  | derivation s => s.ref

/-- The formula, which a derivation step may lack. -/
def formula? : ProofStep → Option Formula
  | hypothesis s => some s.formula
  | derivation s => s.formula

/-- The header. -/
def header : ProofStep → String
  | hypothesis s => s.header
  | derivation s => s.header

/-- The written text. -/
def text : ProofStep → String
  | hypothesis s => s.text
  | derivation s => s.text

/-- The number of lines of the text when it was last laid out. -/
def lineCount : ProofStep → Nat
  | hypothesis s => s.lineCount
  | derivation s => s.lineCount

/-- The hypothesis step, if it is one. -/
def hypothesis? : ProofStep → Option HypothesisStep
  | hypothesis s => some s
  | derivation _ => none

/-- The step is a hypothesis step. -/
def isHypothesis (s : ProofStep) : Bool :=
  s.hypothesis?.isSome

/-- The step owns the reference label. -/
def hasRef (s : ProofStep) (label : String) : Bool :=
  s.ref? == some label

/-- The step with its text written anew from its fields. -/
def layOut : ProofStep → ProofStep
  | hypothesis s => hypothesis s.layOut
  | derivation s => derivation s.layOut

/-- The renumbered step. -/
def renumber (m : Renumbering) : ProofStep → ProofStep
  | hypothesis s => hypothesis (s.renumber m)
  | derivation s => derivation (s.renumber m)

end ProofStep

end ProofSheet
