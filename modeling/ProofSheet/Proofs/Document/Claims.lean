import ProofSheet.Proofs.Resolution.Resolve
import ProofSheet.Proofs.Step.Rendering

/-!
What the steps of a document claim: reference labels, and logical hypotheses.

* `ProofStep.claim`, `Document.claims`: what one step claims, and all of them in order;
* `Document.ownsRef_eq_of_perm`, `Document.binds_eq_of_perm`,
  `Document.hypothesisCount_eq_of_perm`: the order of the claims does not matter to what a document
  is asked;
* `Resolution.resolve_eq_of_perm`: **the resolution sees the claims only**, in whatever order;
* `Document.claims_renumber`, `Document.claims_layOut`: editing leaves the claims alone.
-/

namespace ProofSheet

/-- What a step claims: its reference label and, if it is a hypothesis step, the logical
hypothesis that it is bound to, if there is one. -/
def ProofStep.claim (s : ProofStep) : Option String × Option (Option StatementId) :=
  (s.ref?, s.hypothesis?.map (·.bound))

namespace Document

/-- What the steps claim, in order. -/
def claims (doc : Document) : List (Option String × Option (Option StatementId)) :=
  doc.steps.map (·.claim)

lemma claims_push (doc : Document) (s : ProofStep) :
    (doc.push s).claims = doc.claims ++ [s.claim] := by
  rw [claims, push, List.map_append, List.map_singleton, claims]

/-! ### What a document is asked -/

lemma ownsRef_eq (doc : Document) (label : String) :
    doc.ownsRef label = doc.claims.any (·.1 == some label) := by
  rw [ownsRef, findRef?, List.isSome_find?, claims, List.any_map]
  rfl

lemma binds_eq (doc : Document) (id : StatementId) :
    doc.binds id = doc.claims.any (·.2 == some (some id)) := by
  rw [binds, hypotheses, List.any_filterMap, claims, List.any_map]
  refine congrArg _ (funext fun s => ?_)
  cases s with
  | hypothesis s => exact Option.some_beq_some.symm
  | derivation s => rfl

lemma hypothesisCount_eq (doc : Document) :
    doc.hypothesisCount = doc.claims.countP (·.2.isSome) := by
  rw [hypothesisCount, hypotheses, List.length_filterMap_eq_countP, claims, List.countP_map]
  refine congrArg (List.countP · doc.steps) (funext fun s => ?_)
  rw [Function.comp_apply, ProofStep.claim, Option.isSome_map]

variable {doc doc' : Document}

lemma ownsRef_eq_of_perm (h : doc.claims.Perm doc'.claims) (label : String) :
    doc.ownsRef label = doc'.ownsRef label := by
  rw [ownsRef_eq, h.any_eq, ← ownsRef_eq]

lemma binds_eq_of_perm (h : doc.claims.Perm doc'.claims) (id : StatementId) :
    doc.binds id = doc'.binds id := by
  rw [binds_eq, h.any_eq, ← binds_eq]

lemma hypothesisCount_eq_of_perm (h : doc.claims.Perm doc'.claims) :
    doc.hypothesisCount = doc'.hypothesisCount := by
  rw [hypothesisCount_eq, h.countP_eq, ← hypothesisCount_eq]

end Document

/-! ### What the resolution sees -/

namespace Resolution

variable {doc doc' : Document} (h : doc.claims.Perm doc'.claims) (db : Database)
include h

lemma checkUnowned_eq_of_perm (label : String) :
    checkUnowned doc label = checkUnowned doc' label := by
  rw [checkUnowned, Document.ownsRef_eq_of_perm h, checkUnowned]

lemma nextLabel_eq_of_perm (theoremLabel : String) :
    nextLabel theoremLabel doc = nextLabel theoremLabel doc' := by
  rw [nextLabel, Document.hypothesisCount_eq_of_perm h, nextLabel]

lemma bindHypothesis_eq_of_perm (theoremLabel : String) (ref : Option String) (formula : Formula) :
    bindHypothesis db theoremLabel doc ref formula =
      bindHypothesis db theoremLabel doc' ref formula := by
  simp only [bindHypothesis, matchFormula, checkUnowned_eq_of_perm h, Document.binds_eq_of_perm h]

lemma reserve_eq_of_perm (theoremLabel : String) (ref : Option String) :
    reserve db theoremLabel doc ref = reserve db theoremLabel doc' ref := by
  simp only [reserve, nextLabel_eq_of_perm h, checkUnowned_eq_of_perm h]

/-- **The resolution sees the claims only**: behind steps with the same claims, in whatever order,
a draft becomes the same step, or is refused for the same reason. -/
lemma resolve_eq_of_perm (target : Target) (draft : HypothesisDraft) :
    resolve db target doc draft = resolve db target doc' draft := by
  cases target with
  | existing theoremLabel => simp only [resolve, settle, bindHypothesis_eq_of_perm h]
  | fresh theoremLabel => simp only [resolve, settle, reserve_eq_of_perm h]

end Resolution

/-! ### Editing -/

namespace ProofStep

/-- A step claims neither its numbers nor its text. -/
lemma claim_eq_of_content_eq {s s' : ProofStep} (h : s.content = s'.content) :
    s.claim = s'.claim := by
  have hclaim (s : ProofStep) : s.claim = (s.content.1, s.content.2.2.map (·.2)) := by
    cases s <;> rfl
  rw [hclaim, h, hclaim]

lemma claim_renumber (m : Renumbering) (s : ProofStep) : (s.renumber m).claim = s.claim :=
  claim_eq_of_content_eq (s.content_renumber m)

lemma claim_layOut (s : ProofStep) : s.layOut.claim = s.claim :=
  claim_eq_of_content_eq s.content_layOut

end ProofStep

namespace Document

lemma claims_renumber (m : Renumbering) (doc : Document) :
    (doc.renumber m).claims = doc.claims := by
  rw [claims, renumber, List.map_map, claims]
  exact List.map_congr_left fun s _ => s.claim_renumber m

lemma claims_layOut (doc : Document) : doc.layOut.claims = doc.claims := by
  rw [claims, layOut, List.map_map, claims]
  exact List.map_congr_left fun s _ => s.claim_layOut

end Document

end ProofSheet
