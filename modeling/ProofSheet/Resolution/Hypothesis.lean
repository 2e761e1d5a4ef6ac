import ProofSheet.Document
import ProofSheet.Label
import ProofSheet.Resolution.LoadError
import ProofSheet.Resolution.Target
import ProofSheet.Step.Draft

/-!
Resolving hypothesis drafts, one at a time and in document order: each is judged against the
steps that stand before it.

* `matchFormula`: a draft without a label takes the first logical hypothesis with its formula
  that no earlier step is bound to;
* `matchLabel`: a draft with a label takes the logical hypothesis that the label names;
* `reserve`: in a new theorem a label is only reserved, the given one or the next of the form
  `theorem.n`;
* `resolve`: the step that a draft becomes.
-/

namespace ProofSheet.Resolution

/-- A reference label that an earlier step owns cannot be taken again. -/
def checkUnowned (doc : Document) (label : String) : Except LoadFault Unit :=
  if doc.ownsRef label then .error (.duplicateRefLabel label) else .ok ()

/-! ### Theorems of the database -/

/-- The first logical hypothesis of the theorem with the formula that no step is bound to. -/
def matchFormula (db : Database) (theoremLabel : String) (doc : Document) (formula : Formula) :
    Except LoadFault Statement :=
  match (db.hypothesesOf theoremLabel).filter (·.formula == formula) with
  | [] => .error .hypothesisFormulaNotFound
  | candidates@(_ :: _) =>
    match candidates.find? (fun hyp => !doc.binds hyp.id) with
    | none => .error .duplicateHypothesisFormula
    | some hyp => .ok hyp

/-- The logical hypothesis of the theorem that a label names, if its formula is the given one. -/
def matchLabel (db : Database) (theoremLabel : String) (label : String) (formula : Formula) :
    Except LoadFault Statement :=
  match db.find? label with
  | none => .error (.referenceNotFound label)
  | some hyp =>
    if !hyp.isLogHyp then .error (.referenceNotLogHyp label)
    else if !(db.hypothesesOf theoremLabel).any (·.id == hyp.id) then
      .error (.logHypMismatch label)
    else if hyp.formula != formula then .error (.hypothesisFormulaMismatch label)
    else .ok hyp

/-- The logical hypothesis that a draft stands for.  A label that an earlier step owns is
refused whatever the formula says. -/
def bindHypothesis (db : Database) (theoremLabel : String) (doc : Document)
    (ref : Option String) (formula : Formula) : Except LoadFault Statement := do
  match ref with
  | none =>
    let hyp ← matchFormula db theoremLabel doc formula
    checkUnowned doc hyp.label
    return hyp
  | some label =>
    checkUnowned doc label
    matchLabel db theoremLabel label formula

/-! ### New theorems -/

/-- The label made up for the next hypothesis of a new theorem: the theorem's label and the
number of the step among the hypothesis steps. -/
def nextLabel (theoremLabel : String) (doc : Document) : String :=
  theoremLabel ++ "." ++ toString (doc.hypothesisCount + 1)

/-- The label that a draft reserves. -/
def reserve (db : Database) (theoremLabel : String) (doc : Document) (ref : Option String) :
    Except LoadFault String := do
  let label := ref.getD (nextLabel theoremLabel doc)
  checkUnowned doc label
  if db.contains label then .error (.labelAlreadyExists label)
  else if !Label.isWellFormed label then .error (.invalidLabelCharacters label)
  else if Label.isReserved label then .error (.prohibitedLabel label)
  else .ok label

/-! ### Either kind of theorem -/

/-- The step that a draft with a formula becomes.  The tree comes from the logical hypothesis,
or in a new theorem from the draft, where a flat tree stands in for a missing one. -/
def settle (db : Database) (target : Target) (doc : Document) (draft : HypothesisDraft)
    (formula : Formula) : Except LoadFault HypothesisStep :=
  match target with
  | .existing theoremLabel => do
    let hyp ← bindHypothesis db theoremLabel doc draft.ref formula
    return .ofFields draft.step hyp.label formula hyp.tree (some hyp.id)
  | .fresh theoremLabel => do
    let label ← reserve db theoremLabel doc draft.ref
    let tree := draft.tree.getD (.flat ParseTree.wff formula)
    return .ofFields draft.step label formula tree none

/-- The step that a draft becomes behind the steps of `doc`, or the error that names it. -/
def resolve (db : Database) (target : Target) (doc : Document) (draft : HypothesisDraft) :
    Except LoadError HypothesisStep :=
  let outcome : Except LoadFault HypothesisStep :=
    match draft.formula with
    | none => .error .missingFormula
    | some formula => settle db target doc draft formula
  outcome.mapError fun fault => ⟨target.label, draft.step, fault, draft.caret.offset⟩

end ProofSheet.Resolution
