import ProofSheet.Step.Basic

/-!
Documents: the steps of one worksheet, in the order in which they stand there.

* `Document.findStep?`, `Document.findRef?`: the first step with a number or a label;
* `Document.ownsRef`, `Document.binds`: what an earlier step has taken, a reference label or a
  logical hypothesis of the theorem;
* `Document.renumber`, `Document.layOut`: every step renumbered or written anew.
-/

namespace ProofSheet

/-- The steps of one worksheet. -/
structure Document where
  steps : List ProofStep := []
deriving DecidableEq

namespace Document

/-- The number of steps. -/
def size (doc : Document) : Nat :=
  doc.steps.length

/-- The document with one more step at its end. -/
def push (doc : Document) (step : ProofStep) : Document :=
  ⟨doc.steps ++ [step]⟩

/-- The hypothesis steps, in order. -/
def hypotheses (doc : Document) : List HypothesisStep :=
  doc.steps.filterMap (·.hypothesis?)

/-- The number of hypothesis steps. -/
def hypothesisCount (doc : Document) : Nat :=
  doc.hypotheses.length

/-- The texts of the steps, in order. -/
def texts (doc : Document) : List String :=
  doc.steps.map (·.text)

/-! ### What the steps have taken -/

/-- The first step with a number. -/
def findStep? (doc : Document) (step : String) : Option ProofStep :=
  doc.steps.find? (·.step == step)

/-- The first step with a reference label. -/
def findRef? (doc : Document) (label : String) : Option ProofStep :=
  doc.steps.find? (·.hasRef label)

/-- Some step owns the reference label. -/
def ownsRef (doc : Document) (label : String) : Bool :=
  (doc.findRef? label).isSome

/-- Some hypothesis step is bound to the statement. -/
def binds (doc : Document) (id : StatementId) : Bool :=
  doc.hypotheses.any (·.bound == some id)

/-- The pairs of positions `i < j` whose steps share a reference label. -/
def duplicateRefs (doc : Document) : List (Nat × Nat) :=
  let numbered := doc.steps.zipIdx
  numbered.flatMap fun (first, i) =>
    match first.ref? with
    | none => []
    | some label =>
      (numbered.drop (i + 1)).filterMap fun (second, j) =>
        if second.hasRef label then some (i, j) else none

/-! ### Changing every step -/

/-- The document with every step renumbered. -/
def renumber (m : Renumbering) (doc : Document) : Document :=
  ⟨doc.steps.map (·.renumber m)⟩

/-- The document with the text of every step written anew from its fields. -/
def layOut (doc : Document) : Document :=
  ⟨doc.steps.map (·.layOut)⟩

end Document

end ProofSheet
