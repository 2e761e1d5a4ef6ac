/-!
Renumberings: which step numbers are written anew, and as what.  All numbers of a document
change at once, so a renumbering may exchange two numbers.

* `Renumbering.target?`: the new number for an old one, if the renumbering names it;
* `Renumbering.apply`: the same, where a number that is not named stays as it is.
-/

namespace ProofSheet

/-- Old step numbers, each with its new one; of two pairs for one number the later counts. -/
structure Renumbering where
  pairs : List (String × String)
deriving DecidableEq

namespace Renumbering

/-- The new number for an old one. -/
def target? (renumbering : Renumbering) (step : String) : Option String :=
  (renumbering.pairs.findRev? (·.1 == step)).map (·.2)

/-- The number that stands for `step` after the renumbering. -/
def apply (renumbering : Renumbering) (step : String) : String :=
  (renumbering.target? step).getD step

/-- The renumbering names the step number. -/
def names (renumbering : Renumbering) (step : String) : Bool :=
  (renumbering.target? step).isSome

end Renumbering

end ProofSheet
