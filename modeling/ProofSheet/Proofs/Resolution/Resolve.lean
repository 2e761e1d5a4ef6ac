import ProofSheet.Proofs.Database.Growth
import ProofSheet.Resolution.Hypothesis

/-!
When a hypothesis draft resolves, and what it becomes.

* `ownsRef_eq_false_iff`, `binds_iff`: what the steps of a document have taken;
* `ofLabel_eq_fresh_iff`, `ofLabel_eq_existing_iff`: which labels name new theorems, and which
  name theorems of the database;
* `matchFormula_eq_ok_iff`, `matchLabel_eq_ok_iff`, `bindHypothesis_eq_ok_iff`,
  `reserve_eq_ok_iff`: one condition for each part of the resolution;
* `resolve_existing_eq_ok_iff`, `resolve_fresh_eq_ok_iff`: the same for the two kinds of theorems;
* `of_bindHypothesis`: either way of finding a logical hypothesis leads to one of the theorem, and
  its label was not taken;
* `of_resolve_eq_error`, `of_resolve_eq_duplicateRefLabel`: why a draft is refused.
-/

namespace ProofSheet

/-! ### What the steps have taken -/

namespace Document

lemma ownsRef_iff {doc : Document} {label : String} :
    doc.ownsRef label = true ↔ ∃ s ∈ doc.steps, s.ref? = some label := by
  simp [ownsRef, findRef?, ProofStep.hasRef]

lemma ownsRef_eq_false_iff {doc : Document} {label : String} :
    doc.ownsRef label = false ↔ ∀ s ∈ doc.steps, s.ref? ≠ some label := by
  rw [← Bool.not_eq_true, ownsRef_iff]
  simp

lemma mem_hypotheses_iff {doc : Document} {s : HypothesisStep} :
    s ∈ doc.hypotheses ↔ .hypothesis s ∈ doc.steps := by
  rw [hypotheses, List.mem_filterMap]
  refine ⟨?_, fun h => ⟨_, h, rfl⟩⟩
  rintro ⟨t, ht, hs⟩
  cases t with
  | hypothesis t =>
      cases hs
      exact ht
  | derivation t => cases hs

lemma binds_iff {doc : Document} {id : StatementId} :
    doc.binds id = true ↔ some id ∈ doc.hypotheses.map (·.bound) := by
  simp [binds]

lemma hypotheses_push_hypothesis (doc : Document) (s : HypothesisStep) :
    (doc.push (.hypothesis s)).hypotheses = doc.hypotheses ++ [s] := by
  simp [hypotheses, push, ProofStep.hypothesis?]

lemma hypotheses_push_derivation (doc : Document) (s : DerivationStep) :
    (doc.push (.derivation s)).hypotheses = doc.hypotheses := by
  simp [hypotheses, push, ProofStep.hypothesis?]

lemma ownsRef_push (doc : Document) (s : ProofStep) (label : String) :
    (doc.push s).ownsRef label = true ↔ doc.ownsRef label = true ∨ s.ref? = some label := by
  rw [ownsRef_iff, ownsRef_iff]
  simp [push, or_and_right, exists_or]

lemma binds_push_hypothesis (doc : Document) (s : HypothesisStep) (id : StatementId) :
    (doc.push (.hypothesis s)).binds id = true ↔ doc.binds id = true ∨ s.bound = some id := by
  rw [binds_iff, binds_iff, hypotheses_push_hypothesis]
  simp [eq_comm]

lemma binds_push_derivation (doc : Document) (s : DerivationStep) (id : StatementId) :
    (doc.push (.derivation s)).binds id = doc.binds id := by
  rw [binds, binds, hypotheses_push_derivation]

end Document

/-! ### The theorem that a label names -/

namespace Target

lemma ofLabel_eq_fresh_iff {db : Database} {label theoremLabel : String} :
    ofLabel db label = .ok (.fresh theoremLabel) ↔
      label = theoremLabel ∧ db.find? label = none := by
  rw [ofLabel]
  cases db.find? label with
  | none => simp
  | some s => cases hs : s.isTheorem <;> simp [hs]

lemma ofLabel_eq_existing_iff {db : Database} {label theoremLabel : String} :
    ofLabel db label = .ok (.existing theoremLabel) ↔
      label = theoremLabel ∧ ∃ s, db.find? label = some s ∧ s.isTheorem = true := by
  rw [ofLabel]
  cases db.find? label with
  | none => simp
  | some s => cases hs : s.isTheorem <;> simp [hs]

lemma label_of_ofLabel {db : Database} {label : String} {target : Target}
    (h : ofLabel db label = .ok target) : target.label = label := by
  cases target with
  | fresh theoremLabel => exact (ofLabel_eq_fresh_iff.1 h).1.symm
  | existing theoremLabel => exact (ofLabel_eq_existing_iff.1 h).1.symm

end Target

namespace Resolution

variable {db : Database} {theoremLabel label : String} {doc : Document} {ref : Option String}
  {formula : Formula} {hyp : Statement}

/-! ### The parts of the resolution -/

lemma checkUnowned_eq_ok_iff {u : Unit} :
    checkUnowned doc label = .ok u ↔ doc.ownsRef label = false := by
  rw [checkUnowned]
  cases doc.ownsRef label <;> simp

lemma checkUnowned_eq_error_iff {fault : LoadFault} :
    checkUnowned doc label = .error fault ↔
      doc.ownsRef label = true ∧ fault = .duplicateRefLabel label := by
  rw [checkUnowned]
  cases doc.ownsRef label <;> simp [eq_comm]

/-- The first logical hypothesis with the formula that no step is bound to. -/
lemma matchFormula_eq_ok_iff :
    matchFormula db theoremLabel doc formula = .ok hyp ↔
      (db.hypothesesOf theoremLabel).find? (fun h => h.formula == formula && !doc.binds h.id) =
        some hyp := by
  have hfind : (db.hypothesesOf theoremLabel).find?
      (fun h => h.formula == formula && !doc.binds h.id) =
      ((db.hypothesesOf theoremLabel).filter (·.formula == formula)).find?
        (fun h => !doc.binds h.id) := by
    rw [List.find?_filter]
    exact congrArg (List.find? · _) (funext fun h => by simp [Bool.beq_eq_decide_eq])
  rw [matchFormula, hfind]
  cases (db.hypothesesOf theoremLabel).filter (·.formula == formula) with
  | nil => simp
  | cons first rest =>
      cases hfound : (first :: rest).find? (fun h => !doc.binds h.id) <;> simp [hfound]

lemma matchLabel_eq_ok_iff :
    matchLabel db theoremLabel label formula = .ok hyp ↔
      db.find? label = some hyp ∧ hyp.isLogHyp = true ∧
        (∃ h ∈ db.hypothesesOf theoremLabel, h.id = hyp.id) ∧ hyp.formula = formula := by
  rw [matchLabel]
  cases db.find? label with
  | none => simp
  | some found =>
      simp only [Except.ite_error_eq_ok_iff, Except.ok.injEq, Option.some.injEq,
        Bool.not_eq_true', Bool.not_eq_false, List.any_eq_true, beq_iff_eq, bne_iff_ne, ne_eq,
        not_not]
      constructor
      · rintro ⟨hlog, hmem, hf, rfl⟩
        exact ⟨rfl, hlog, hmem, hf⟩
      · rintro ⟨rfl, hlog, hmem, hf⟩
        exact ⟨hlog, hmem, hf, rfl⟩

/-- A missing label takes the first match, and the label of that must not be taken either. -/
lemma bindHypothesis_eq_ok_iff :
    bindHypothesis db theoremLabel doc ref formula = .ok hyp ↔
      doc.ownsRef (ref.getD hyp.label) = false ∧
        match ref with
        | none => matchFormula db theoremLabel doc formula = .ok hyp
        | some label => matchLabel db theoremLabel label formula = .ok hyp := by
  cases ref with
  | none =>
      simp only [bindHypothesis, Except.bind_eq_ok_iff, checkUnowned_eq_ok_iff]
      constructor
      · rintro ⟨found, hmatch, -, hfree, ⟨⟩⟩
        exact ⟨hfree, hmatch⟩
      · rintro ⟨hfree, hmatch⟩
        exact ⟨hyp, hmatch, (), hfree, rfl⟩
  | some label =>
      simp only [bindHypothesis, Except.bind_eq_ok_iff, checkUnowned_eq_ok_iff]
      exact exists_const Unit

/-- A label is reserved if it is free, well formed and not the name of a device. -/
lemma reserve_eq_ok_iff :
    reserve db theoremLabel doc ref = .ok label ↔
      label = ref.getD (nextLabel theoremLabel doc) ∧ doc.ownsRef label = false ∧
        db.contains label = false ∧ Label.isWellFormed label = true ∧
          Label.isReserved label = false := by
  simp only [reserve, Except.bind_eq_ok_iff, Except.ite_error_eq_ok_iff, Except.ok.injEq,
    checkUnowned_eq_ok_iff, Bool.not_eq_true', Bool.not_eq_false, Bool.not_eq_true]
  constructor
  · rintro ⟨-, howned, hfree, hwf, hreserved, rfl⟩
    exact ⟨rfl, howned, hfree, hwf, hreserved⟩
  · rintro ⟨rfl, howned, hfree, hwf, hreserved⟩
    exact ⟨(), howned, hfree, hwf, hreserved, rfl⟩

/-! ### Resolving a draft -/

variable {draft : HypothesisDraft} {s : HypothesisStep}

lemma resolve_eq_ok_iff {target : Target} :
    resolve db target doc draft = .ok s ↔
      ∃ formula, draft.formula = some formula ∧ settle db target doc draft formula = .ok s := by
  rw [resolve, Except.mapError_eq_ok_iff]
  cases draft.formula with
  | none => simp
  | some formula => simp

/-- A step of a theorem of the database takes everything but its number from the logical
hypothesis that it is bound to. -/
lemma resolve_existing_eq_ok_iff :
    resolve db (.existing theoremLabel) doc draft = .ok s ↔
      ∃ formula hyp, draft.formula = some formula ∧
        bindHypothesis db theoremLabel doc draft.ref formula = .ok hyp ∧
          s = .ofFields draft.step hyp.label formula hyp.tree (some hyp.id) := by
  simp only [resolve_eq_ok_iff, settle, Except.bind_eq_ok_iff, exists_and_left]
  constructor
  · rintro ⟨formula, hformula, hyp, hbind, ⟨⟩⟩
    exact ⟨formula, hformula, hyp, hbind, rfl⟩
  · rintro ⟨formula, hformula, hyp, hbind, rfl⟩
    exact ⟨formula, hformula, hyp, hbind, rfl⟩

/-- A step of a new theorem is bound to nothing. -/
lemma resolve_fresh_eq_ok_iff :
    resolve db (.fresh theoremLabel) doc draft = .ok s ↔
      ∃ formula label, draft.formula = some formula ∧
        reserve db theoremLabel doc draft.ref = .ok label ∧
          s = .ofFields draft.step label formula
            (draft.tree.getD (.flat ParseTree.wff formula)) none := by
  simp only [resolve_eq_ok_iff, settle, Except.bind_eq_ok_iff, exists_and_left]
  constructor
  · rintro ⟨formula, hformula, label, hlabel, ⟨⟩⟩
    exact ⟨formula, hformula, label, hlabel, rfl⟩
  · rintro ⟨formula, hformula, label, hlabel, rfl⟩
    exact ⟨formula, hformula, label, hlabel, rfl⟩

/-- A step has the number and the formula of its draft. -/
lemma fields_of_resolve {target : Target} (h : resolve db target doc draft = .ok s) :
    draft.step = s.step ∧ draft.formula = some s.formula := by
  cases target with
  | fresh theoremLabel =>
      obtain ⟨formula, label, hformula, -, rfl⟩ := resolve_fresh_eq_ok_iff.1 h
      exact ⟨rfl, hformula⟩
  | existing theoremLabel =>
      obtain ⟨formula, hyp, hformula, -, rfl⟩ := resolve_existing_eq_ok_iff.1 h
      exact ⟨rfl, hformula⟩

/-- A step takes a label that no step before it has. -/
lemma ownsRef_eq_false_of_resolve {target : Target}
    (h : resolve db target doc draft = .ok s) : doc.ownsRef s.ref = false := by
  cases target with
  | fresh theoremLabel =>
      obtain ⟨formula, label, -, hreserve, rfl⟩ := resolve_fresh_eq_ok_iff.1 h
      exact (reserve_eq_ok_iff.1 hreserve).2.1
  | existing theoremLabel =>
      obtain ⟨formula, hyp, -, hbind, rfl⟩ := resolve_existing_eq_ok_iff.1 h
      obtain ⟨hfree, hfound⟩ := bindHypothesis_eq_ok_iff.1 hbind
      cases hlabel : draft.ref with
      | none =>
          rw [hlabel] at hfree
          exact hfree
      | some label =>
          rw [hlabel] at hfree hfound
          have hfind := List.find?_some (matchLabel_eq_ok_iff.1 hfound).1
          rw [beq_iff_eq] at hfind
          rw [← hfind] at hfree
          exact hfree

lemma matchFormula_ne_duplicateRefLabel :
    matchFormula db theoremLabel doc formula ≠ .error (.duplicateRefLabel label) := by
  rw [matchFormula]
  split
  · nofun
  · split <;> nofun

/-- A draft without a label is refused because of a label only after a logical hypothesis with its
formula has been found, and the label is the one of that hypothesis. -/
lemma bindHypothesis_none_eq_duplicateRefLabel_iff :
    bindHypothesis db theoremLabel doc none formula = .error (.duplicateRefLabel label) ↔
      ∃ hyp, matchFormula db theoremLabel doc formula = .ok hyp ∧ hyp.label = label ∧
        doc.ownsRef label = true := by
  rw [bindHypothesis, Except.bind_eq_error_iff, or_iff_right matchFormula_ne_duplicateRefLabel]
  refine exists_congr fun hyp => and_congr_right fun _ => ?_
  rw [Except.bind_pure_eq_error_iff, checkUnowned_eq_error_iff, LoadFault.duplicateRefLabel.injEq]
  constructor
  · rintro ⟨howned, rfl⟩
    exact ⟨rfl, howned⟩
  · rintro ⟨rfl, howned⟩
    exact ⟨howned, rfl⟩

/-- A draft is refused for want of a formula, or because no logical hypothesis or no label is found
for it. -/
lemma of_resolve_eq_error {target : Target} {e : LoadError}
    (h : resolve db target doc draft = .error e) :
    e.fault = .missingFormula ∨
      ∃ formula, match target with
        | .existing theoremLabel =>
          bindHypothesis db theoremLabel doc draft.ref formula = .error e.fault
        | .fresh theoremLabel => reserve db theoremLabel doc draft.ref = .error e.fault := by
  rw [resolve, Except.mapError_eq_error_iff] at h
  obtain ⟨fault, hfault, rfl⟩ := h
  cases hformula : draft.formula with
  | none =>
      rw [hformula] at hfault
      exact .inl (Except.error.inj hfault).symm
  | some formula =>
      rw [hformula] at hfault
      refine .inr ⟨formula, ?_⟩
      cases target with
      | existing theoremLabel => exact Except.bind_pure_eq_error_iff.1 hfault
      | fresh theoremLabel => exact Except.bind_pure_eq_error_iff.1 hfault

/-- A draft without a label that is refused because of a label has found the logical hypothesis
that the label names. -/
lemma of_resolve_eq_duplicateRefLabel {e : LoadError} (href : draft.ref = none)
    (h : resolve db (.existing theoremLabel) doc draft = .error e)
    (hfault : e.fault = .duplicateRefLabel label) :
    ∃ formula hyp, matchFormula db theoremLabel doc formula = .ok hyp ∧ hyp.label = label ∧
      doc.ownsRef label = true := by
  rcases of_resolve_eq_error h with hmissing | ⟨formula, hbind⟩
  · cases hmissing.symm.trans hfault
  · rw [href, hfault] at hbind
    exact ⟨formula, bindHypothesis_none_eq_duplicateRefLabel_iff.1 hbind⟩

/-- **Both ways of finding a logical hypothesis** lead to one of the theorem's with the formula,
whose label no earlier step owns and is the given one, if there is one. -/
lemma of_bindHypothesis (hdb : db.WellFormed)
    (h : bindHypothesis db theoremLabel doc ref formula = .ok hyp) :
    hyp ∈ db.hypothesesOf theoremLabel ∧ hyp.formula = formula ∧
      doc.ownsRef hyp.label = false ∧ ∀ label ∈ ref, label = hyp.label := by
  obtain ⟨hfree, hfound⟩ := bindHypothesis_eq_ok_iff.1 h
  cases ref with
  | none =>
      have hmatch := matchFormula_eq_ok_iff.1 hfound
      have hcond := List.find?_some hmatch
      rw [Bool.and_eq_true, beq_iff_eq] at hcond
      exact ⟨List.mem_of_find?_eq_some hmatch, hcond.1, hfree, by simp⟩
  | some label =>
      obtain ⟨hfind, -, ⟨other, hother, hid⟩, hformula⟩ := matchLabel_eq_ok_iff.1 hfound
      obtain ⟨hmem, hlabel⟩ := hdb.find?_eq_some_iff.1 hfind
      rw [hdb.eq_of_id_eq (hdb.of_mem_hypothesesOf hother).1 hmem hid] at hother
      rw [hlabel]
      refine ⟨hother, hformula, hfree, ?_⟩
      rintro _ ⟨⟩
      rfl

end Resolution

end ProofSheet
