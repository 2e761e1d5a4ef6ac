import ProofSheet.Proofs.Worksheet.Loading

/-!
One text, loaded against a database and against a larger one.

* `LoadFault.Outgrown`, `LoadError.Outgrown`: how a refusal may change while the database grows. A
  label that was unknown may now be the label of something that is of no use;
* `Except.Agree`: two computations that both succeed, with the same value, or are both refused, for
  related reasons;
* `Resolution.agree_resolve`, `Worksheet.agree_loadSteps`: a theorem that the database has resolves
  alike in every larger one;
* `Resolution.resolve_of_grows`: what is reserved in the larger database could be reserved before;
* `Worksheet.load_of_grows`: **loading is stable** while the database grows.
-/

namespace ProofSheet

/-! ### How a refusal may change -/

/-- The second fault may be found where the first one was, once the database has grown. -/
inductive LoadFault.Outgrown : LoadFault → LoadFault → Prop
  | same (fault : LoadFault) : Outgrown fault fault
  | notLogHyp (label : String) : Outgrown (.referenceNotFound label) (.referenceNotLogHyp label)
  | mismatch (label : String) : Outgrown (.referenceNotFound label) (.logHypMismatch label)

/-- The second error is about the same step and the same place, and its fault may be found where
the first one was. -/
structure LoadError.Outgrown (e e' : LoadError) : Prop where
  theoremLabel : e'.theoremLabel = e.theoremLabel
  step : e'.step = e.step
  caret : e'.caret = e.caret
  fault : e.fault.Outgrown e'.fault

namespace Except

variable {α β ε δ : Type}

/-- Both computations succeed with one value, or both are refused, for related reasons. -/
inductive Agree (R : ε → ε → Prop) : Except ε α → Except ε α → Prop
  | ok (a : α) : Agree R (.ok a) (.ok a)
  | error {e e' : ε} (h : R e e') : Agree R (.error e) (.error e')

namespace Agree

variable {R : ε → ε → Prop} {x x' : Except ε α}

lemma of_eq (hR : ∀ e, R e e) (h : x = x') : Agree R x x' := by
  subst h
  cases x with
  | ok a => exact .ok a
  | error e => exact .error (hR e)

lemma bind (h : Agree R x x') {f f' : α → Except ε β} (hf : ∀ a, Agree R (f a) (f' a)) :
    Agree R (x >>= f) (x' >>= f') := by
  cases h with
  | ok a => exact hf a
  | error h => exact .error h

lemma mapError {S : δ → δ → Prop} {f : ε → δ} (h : Agree R x x')
    (hf : ∀ e e', R e e' → S (f e) (f e')) : Agree S (x.mapError f) (x'.mapError f) := by
  cases h with
  | ok a => exact .ok a
  | error h => exact .error (hf _ _ h)

lemma eq_ok (h : Agree R x x') {a : α} (hx : x = .ok a) : x' = .ok a := by
  subst hx
  cases h
  rfl

lemma exists_error (h : Agree R x x') {e : ε} (hx : x = .error e) :
    ∃ e', x' = .error e' ∧ R e e' := by
  subst hx
  cases h with
  | error h => exact ⟨_, rfl, h⟩

end Agree

end Except

/-! ### Words that are taken -/

namespace Database

variable {db db' : Database}

/-- A word that is taken stays taken. -/
lemma Grows.contains (h : Grows db db') {word : String} (hw : db.contains word = true) :
    db'.contains word = true := by
  induction h with
  | refl => exact hw
  | tail _ hadd ih =>
      obtain ⟨name, -, rfl⟩ | ⟨label, formula, kind, -, -, rfl⟩ := hadd.cases
      · rw [contains_append_symbol, ih, Bool.true_or]
      · rw [contains_append_statement, ih, Bool.true_or]

lemma Grows.contains_eq_false (h : Grows db db') {word : String}
    (hw : db'.contains word = false) : db.contains word = false :=
  Bool.eq_false_iff.2 fun hdb => absurd (h.contains hdb) (Bool.eq_false_iff.1 hw)

lemma Grows.find?_eq_none (h : Grows db db') {label : String} (hs : db'.find? label = none) :
    db.find? label = none := by
  cases hdb : db.find? label with
  | none => rfl
  | some s => rw [h.find?_eq_some hdb] at hs; cases hs

end Database

/-! ### Theorems of the smaller database -/

namespace Resolution

variable {db db' : Database} (hdb : db.WellFormed) (hgrow : Database.Grows db db')
  {theoremLabel : String} {statement : Statement}
  (hfind : db.find? theoremLabel = some statement)
include hdb hgrow hfind

/-- A label that was there names the same statement; one that is new names no hypothesis of the
theorem, since the theorem rests on what stands before it. -/
lemma agree_matchLabel (label : String) (formula : Formula) :
    Except.Agree LoadFault.Outgrown (matchLabel db theoremLabel label formula)
      (matchLabel db' theoremLabel label formula) := by
  have hhyps := hgrow.hypothesesOf_eq hdb hfind
  cases hs : db.find? label with
  | some s =>
      refine .of_eq .same ?_
      rw [matchLabel, matchLabel, hs, hgrow.find?_eq_some hs, hhyps]
  | none =>
      rw [matchLabel, hs, matchLabel, hhyps]
      cases hs' : db'.find? label with
      | none => exact .error (.same _)
      | some s =>
          have hnew : (db.hypothesesOf theoremLabel).any (·.id == s.id) = false := by
            rw [List.any_eq_false]
            intro hyp hhyp hid
            have hwf' := hdb.grows hgrow
            obtain ⟨hmem, -⟩ := hdb.of_mem_hypothesesOf hhyp
            obtain ⟨hmem', hlabel⟩ := hwf'.find?_eq_some_iff.1 hs'
            have heq := hwf'.eq_of_id_eq (hgrow.statements_prefix.subset hmem) hmem'
              (beq_iff_eq.1 hid)
            rw [hdb.find?_eq_some_iff.2 ⟨hmem, heq ▸ hlabel⟩] at hs
            cases hs
          cases hlog : s.isLogHyp with
          | false => simpa [hlog] using .error (.notLogHyp label)
          | true => simpa [hlog, hnew] using .error (.mismatch label)

lemma agree_bindHypothesis (doc : Document) (ref : Option String) (formula : Formula) :
    Except.Agree LoadFault.Outgrown (bindHypothesis db theoremLabel doc ref formula)
      (bindHypothesis db' theoremLabel doc ref formula) := by
  cases ref with
  | none =>
      refine .of_eq .same ?_
      rw [bindHypothesis, bindHypothesis, matchFormula, matchFormula,
        hgrow.hypothesesOf_eq hdb hfind]
  | some label =>
      refine Except.Agree.bind (.of_eq .same rfl) fun _ => ?_
      exact agree_matchLabel hdb hgrow hfind label formula

/-- **A theorem that the database has resolves alike** in every larger one. -/
lemma agree_resolve (doc : Document) (draft : HypothesisDraft) :
    Except.Agree LoadError.Outgrown (resolve db (.existing theoremLabel) doc draft)
      (resolve db' (.existing theoremLabel) doc draft) := by
  refine Except.Agree.mapError (R := LoadFault.Outgrown) ?_ fun e e' h => ⟨rfl, rfl, rfl, h⟩
  cases draft.formula with
  | none => exact .error (.same _)
  | some formula =>
      exact (agree_bindHypothesis hdb hgrow hfind doc draft.ref formula).bind fun hyp => .ok _

end Resolution

namespace Worksheet

variable {db db' : Database} (hdb : db.WellFormed) (hgrow : Database.Grows db db')

section Existing

variable {theoremLabel : String} {statement : Statement}
  (hfind : db.find? theoremLabel = some statement)
include hdb hgrow hfind

lemma agree_loadSteps (doc : Document) (drafts : List StepDraft) :
    Except.Agree LoadError.Outgrown (loadSteps db (.existing theoremLabel) doc drafts)
      (loadSteps db' (.existing theoremLabel) doc drafts) := by
  induction drafts generalizing doc with
  | nil => exact .ok doc
  | cons draft drafts ih =>
      cases draft with
      | derivation draft => exact ih _
      | hypothesis draft =>
          have hagree := Resolution.agree_resolve hdb hgrow hfind doc draft
          rw [loadSteps, loadSteps]
          cases hs : Resolution.resolve db (.existing theoremLabel) doc draft with
          | ok step =>
              rw [hagree.eq_ok hs]
              exact ih _
          | error e =>
              obtain ⟨e', hs', h⟩ := hagree.exists_error hs
              rw [hs']
              exact .error h

end Existing

/-! ### New theorems of the larger database -/

include hgrow

/-- What can be reserved in the larger database can be reserved in the smaller one. -/
lemma stepOf_of_grows {theoremLabel : String} {doc : Document} {draft : StepDraft} {s : ProofStep}
    (h : stepOf db' (.fresh theoremLabel) doc draft = .ok s) :
    stepOf db (.fresh theoremLabel) doc draft = .ok s := by
  cases draft with
  | derivation draft => exact h
  | hypothesis draft =>
      obtain ⟨t, ht, rfl⟩ := stepOf_hypothesis_eq_ok_iff.1 h
      obtain ⟨formula, label, hformula, hreserve, rfl⟩ := Resolution.resolve_fresh_eq_ok_iff.1 ht
      obtain ⟨hlabel, howned, hfree, hjudged⟩ := Resolution.reserve_eq_ok_iff.1 hreserve
      have hreserve' := Resolution.reserve_eq_ok_iff.2
        ⟨hlabel, howned, hgrow.contains_eq_false hfree, hjudged⟩
      exact stepOf_hypothesis_eq_ok_iff.2
        ⟨_, Resolution.resolve_fresh_eq_ok_iff.2 ⟨formula, label, hformula, hreserve', rfl⟩, rfl⟩

lemma loadSteps_of_grows {theoremLabel : String} {doc final : Document} {drafts : List StepDraft}
    (h : loadSteps db' (.fresh theoremLabel) doc drafts = .ok final) :
    loadSteps db (.fresh theoremLabel) doc drafts = .ok final := by
  induction drafts generalizing doc with
  | nil => exact h
  | cons draft drafts ih =>
      obtain ⟨s, hs, h⟩ := loadSteps_cons_eq_ok_iff.1 h
      exact loadSteps_cons_eq_ok_iff.2 ⟨s, stepOf_of_grows hgrow hs, ih h⟩

lemma ofDraft_of_grows {draft : WorksheetDraft} {sheet : Worksheet}
    (h : ofDraft db' draft = .ok sheet) (hnew : sheet.target.isNew = true) :
    ofDraft db draft = .ok sheet := by
  obtain ⟨target, locAfter, document⟩ := sheet
  cases target with
  | existing theoremLabel => cases hnew
  | fresh theoremLabel =>
      obtain ⟨label, hlabel, htarget, hloc, hsteps⟩ := ofDraft_eq_ok_iff.1 h
      obtain ⟨rfl, hfree⟩ := Target.ofLabel_eq_fresh_iff.1 htarget
      have htarget' := Target.ofLabel_eq_fresh_iff.2 ⟨rfl, hgrow.find?_eq_none hfree⟩
      exact ofDraft_eq_ok_iff.2 ⟨_, hlabel, htarget', hloc, loadSteps_of_grows hgrow hsteps⟩

omit hgrow

/-! ### Whole texts -/

lemma load_eq_ofDraft {text : String} {draft : WorksheetDraft}
    (h : WorksheetDraft.ofText? text = some draft) : load db text = ofDraft db draft := by
  rw [load, h]

/-- **Loading is stable while the database grows.** A text about a theorem that the database has
becomes the same worksheet in every larger database; if one of its steps is to blame, it is to
blame there too, at the same place and for the same reason, but that a label which named nothing
may now name no logical hypothesis or none of the theorem's. A text that is about a new theorem
even in the larger database, and loads there, loads in the smaller one and becomes the same
worksheet. -/
theorem load_of_grows {db db' : Database} (hdb : db.Built) (hgrow : Database.Grows db db')
    (text : String) :
    (∀ draft label statement, WorksheetDraft.ofText? text = some draft →
      draft.theoremLabel = some label → db.find? label = some statement →
        statement.isTheorem = true →
          (∀ sheet, load db text = .ok sheet → load db' text = .ok sheet) ∧
            ∀ e, load db text = .error (.load e) →
              ∃ e', load db' text = .error (.load e') ∧ e.Outgrown e') ∧
      ∀ sheet, load db' text = .ok sheet → sheet.target.isNew = true →
        load db text = .ok sheet := by
  have hwf := hdb.wellFormed
  refine ⟨fun draft label statement hdraft hlabel hfind htheorem => ?_, fun sheet h hnew => ?_⟩
  · have htarget := Target.ofLabel_eq_existing_iff.2 ⟨rfl, statement, hfind, htheorem⟩
    have htarget' := Target.ofLabel_eq_existing_iff.2
      ⟨rfl, statement, hgrow.find?_eq_some hfind, htheorem⟩
    have hagree := agree_loadSteps hwf hgrow hfind {} draft.steps
    rw [load_eq_ofDraft hdraft, load_eq_ofDraft hdraft]
    refine ⟨fun sheet hsheet => ?_, fun e he => ?_⟩
    · obtain ⟨label', hlabel', hkind, hloc, hsteps⟩ := ofDraft_eq_ok_iff.1 hsheet
      obtain rfl := Option.some.inj (hlabel.symm.trans hlabel')
      have hexisting : .existing label = sheet.target := Except.ok.inj (htarget.symm.trans hkind)
      rw [← hexisting] at hsteps
      exact ofDraft_eq_ok_iff.2 ⟨label, hlabel, hexisting ▸ htarget', hloc,
        hexisting ▸ hagree.eq_ok hsteps⟩
    · obtain ⟨_, ⟨⟩, hsteps⟩ := (ofDraft_eq_error_iff hlabel htarget).1 he
      obtain ⟨e', hsteps', h⟩ := hagree.exists_error hsteps
      exact ⟨e', (ofDraft_eq_error_iff hlabel htarget').2 ⟨e', rfl, hsteps'⟩, h⟩
  · obtain ⟨draft, hdraft, hsheet⟩ := load_eq_ok_iff.1 h
    exact load_eq_ok_iff.2 ⟨draft, hdraft, ofDraft_of_grows hgrow hsheet hnew⟩

/-- One more hypothesis and one more axiom: a worksheet of the theorem stays what it is, and labels
that named nothing now name these. A worksheet for a new theorem loads before and after. -/
theorem load_of_grows_new_labels :
    ∃ db db', db.Built ∧ Database.Grows db db' ∧
      (∃ sheet, load db "$( <MM> <PROOF_ASST> THEOREM=t\nh1:: x\n$)" = .ok sheet ∧
        load db' "$( <MM> <PROOF_ASST> THEOREM=t\nh1:: x\n$)" = .ok sheet) ∧
      (∃ e e', load db "$( <MM> <PROOF_ASST> THEOREM=t\nh1::k x\n$)" = .error (.load e) ∧
        load db' "$( <MM> <PROOF_ASST> THEOREM=t\nh1::k x\n$)" = .error (.load e') ∧
          e.Outgrown e' ∧ e.fault = .referenceNotFound "k" ∧ e'.fault = .logHypMismatch "k") ∧
      ∃ sheet, load db' "$( <MM> <PROOF_ASST> THEOREM=u\nh1:: x\n$)" = .ok sheet ∧
        load db "$( <MM> <PROOF_ASST> THEOREM=u\nh1:: x\n$)" = .ok sheet := by
  let db : Database :=
    ⟨[⟨0, "t.1", ⟨["x"]⟩, .logHyp⟩, ⟨1, "t", ⟨["y"]⟩, .provable [0]⟩], []⟩
  let db' : Database := { db with statements := db.statements ++ [⟨2, "k", ⟨["x"]⟩, .logHyp⟩] }
  have hbuilt : db.Built :=
    .head (.logHyp "t.1" ⟨["x"]⟩ rfl) (.single (.provable "t" ["t.1"] ⟨["y"]⟩ rfl))
  have hgrow : Database.Grows db db' := .single (.logHyp "k" ⟨["x"]⟩ rfl)
  have hbound : load db "$( <MM> <PROOF_ASST> THEOREM=t\nh1:: x\n$)" = .ok ⟨.existing "t", none,
      ⟨[.hypothesis ⟨"1", "t.1", ⟨["x"]⟩, .flat ParseTree.wff ⟨["x"]⟩, some 0, "h1::t.1 x", 1⟩]⟩⟩ :=
    Except.eq_ok_of_toOption (by decide +kernel)
  have hnew : load db' "$( <MM> <PROOF_ASST> THEOREM=u\nh1:: x\n$)" = .ok ⟨.fresh "u", none,
      ⟨[.hypothesis ⟨"1", "u.1", ⟨["x"]⟩, .flat ParseTree.wff ⟨["x"]⟩, none, "h1::u.1 x", 1⟩]⟩⟩ :=
    Except.eq_ok_of_toOption (by decide +kernel)
  have hdraft : WorksheetDraft.ofText? "$( <MM> <PROOF_ASST> THEOREM=t\nh1::k x\n$)" =
      some ⟨some "t", none, [.hypothesis ⟨"1", some "k", some ⟨["x"]⟩, none, ⟨38, 31⟩⟩]⟩ := by
    decide +kernel
  have hunknown : load db "$( <MM> <PROOF_ASST> THEOREM=t\nh1::k x\n$)" =
      .error (.load ⟨"t", "1", .referenceNotFound "k", 8⟩) := by
    rw [load_eq_ofDraft hdraft]
    rfl
  obtain ⟨hkept, -⟩ := (load_of_grows hbuilt hgrow _).1 _ "t" ⟨1, "t", ⟨["y"]⟩, .provable [0]⟩
    (by decide +kernel : WorksheetDraft.ofText? "$( <MM> <PROOF_ASST> THEOREM=t\nh1:: x\n$)" =
      some ⟨some "t", none, [.hypothesis ⟨"1", none, some ⟨["x"]⟩, none, ⟨37, 31⟩⟩]⟩) rfl rfl rfl
  obtain ⟨-, hrefused⟩ := (load_of_grows hbuilt hgrow _).1 _ "t" ⟨1, "t", ⟨["y"]⟩, .provable [0]⟩
    hdraft rfl rfl rfl
  obtain ⟨e', he', houtgrown⟩ := hrefused _ hunknown
  have hfault : e'.fault = .logHypMismatch "k" := by
    have hmismatch : load db' "$( <MM> <PROOF_ASST> THEOREM=t\nh1::k x\n$)" =
        .error (.load ⟨"t", "1", .logHypMismatch "k", 8⟩) := by
      rw [load_eq_ofDraft hdraft]
      rfl
    rw [he'] at hmismatch
    cases hmismatch
    rfl
  exact ⟨db, db', hbuilt, hgrow, ⟨_, hbound, hkept _ hbound⟩,
    ⟨_, e', hunknown, he', houtgrown, rfl, hfault⟩,
    ⟨_, hnew, (load_of_grows hbuilt hgrow _).2 _ hnew rfl⟩⟩

end Worksheet

end ProofSheet
