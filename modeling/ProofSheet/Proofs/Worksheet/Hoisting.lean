import ProofSheet.Proofs.Document.Claims
import ProofSheet.Proofs.Worksheet.Loading

/-!
Moving a draft with a label to an earlier place, in a worksheet for a theorem of the database.

* `Worksheet.Yields`: the steps that drafts become, one after the other;
* `Worksheet.Yields.of_perm`: drafts become the same steps behind other steps with the same claims;
* `Resolution.matchFormula_push`: the first match for a formula, behind one more step;
* `Resolution.resolve_of_push`, `Resolution.resolve_push`: a draft with a label does not need the
  step before it, and no other draft minds that its step comes first;
* `Worksheet.stepOf_exchange`, `Worksheet.Yields.hoist`: the two put together for one draft, and
  for any number of drafts that are passed;
* `Worksheet.ofDraft_hoist`: **every draft becomes the same step** when a draft with a label is
  moved forward.
-/

namespace ProofSheet

lemma List.find?_eq_some_of_imp {α : Type} {l : List α} {p q : α → Bool} {a : α}
    (h : l.find? p = some a) (hq : q a = true) (himp : ∀ b, q b = true → p b = true) :
    l.find? q = some a := by
  obtain ⟨-, before, after, rfl, hbefore⟩ := List.find?_eq_some_iff_append.1 h
  refine List.find?_eq_some_iff_append.2 ⟨hq, before, after, rfl, fun b hb => ?_⟩
  have hp := hbefore b hb
  cases hqb : q b with
  | false => rfl
  | true =>
      rw [himp b hqb] at hp
      exact absurd hp Bool.false_ne_true

/-! ### Two drafts -/

namespace Resolution

variable {db : Database} {theoremLabel label : String} {doc : Document}
  {draft : HypothesisDraft} {s t : HypothesisStep}

/-- A step takes its label from the logical hypothesis that it is bound to. -/
lemma of_resolve_existing (hdb : db.WellFormed)
    (h : resolve db (.existing theoremLabel) doc draft = .ok s) :
    ∃ hyp ∈ db.statements, s.bound = some hyp.id ∧ s.ref = hyp.label := by
  obtain ⟨formula, hyp, -, hbind, rfl⟩ := resolve_existing_eq_ok_iff.1 h
  obtain ⟨hmem, -⟩ := of_bindHypothesis hdb hbind
  exact ⟨hyp, (hdb.of_mem_hypothesesOf hmem).1, rfl, rfl⟩

/-- A draft with a label does not need the step before it. -/
lemma resolve_of_push {u : ProofStep} (href : draft.ref = some label)
    (h : resolve db (.existing theoremLabel) (doc.push u) draft = .ok s) :
    resolve db (.existing theoremLabel) doc draft = .ok s := by
  obtain ⟨formula, hyp, hformula, hbind, rfl⟩ := resolve_existing_eq_ok_iff.1 h
  refine resolve_existing_eq_ok_iff.2 ⟨formula, hyp, hformula, ?_, rfl⟩
  rw [href, bindHypothesis_eq_ok_iff] at hbind ⊢
  refine ⟨?_, hbind.2⟩
  rw [← Bool.not_eq_true] at hbind ⊢
  exact fun howned => hbind.1 ((doc.ownsRef_push u _).2 (.inl howned))

/-- The first match stays the first one behind a step that is bound to another hypothesis. -/
lemma matchFormula_push {formula : Formula} {hyp : Statement} (hbound : s.bound ≠ some hyp.id)
    (h : matchFormula db theoremLabel doc formula = .ok hyp) :
    matchFormula db theoremLabel (doc.push (.hypothesis s)) formula = .ok hyp := by
  rw [matchFormula_eq_ok_iff] at h ⊢
  have hbinds (other : Statement) : (doc.push (.hypothesis s)).binds other.id = false ↔
      doc.binds other.id = false ∧ s.bound ≠ some other.id := by
    rw [← Bool.not_eq_true, Document.binds_push_hypothesis, not_or, Bool.not_eq_true]
  -- the match is still free, and what was taken before is taken now
  refine List.find?_eq_some_of_imp h ?_ fun other hother => ?_
  · have hfree := List.find?_some h
    rw [Bool.and_eq_true, Bool.not_eq_true'] at hfree ⊢
    exact ⟨hfree.1, (hbinds hyp).2 ⟨hfree.2, hbound⟩⟩
  · rw [Bool.and_eq_true, Bool.not_eq_true'] at hother ⊢
    exact ⟨hother.1, ((hbinds other).1 hother.2).1⟩

/-- A draft does not mind one more step before it, if that step is bound to another logical
hypothesis than its own. -/
lemma resolve_push (hdb : db.WellFormed) {hyp : Statement} (hhyp : hyp ∈ db.statements)
    (hbound : s.bound = some hyp.id) (href : s.ref = hyp.label) (hne : t.ref ≠ s.ref)
    (h : resolve db (.existing theoremLabel) doc draft = .ok t) :
    resolve db (.existing theoremLabel) (doc.push (.hypothesis s)) draft = .ok t := by
  obtain ⟨formula, found, hformula, hbind, rfl⟩ := resolve_existing_eq_ok_iff.1 h
  obtain ⟨hmem, -, hfree, hlabel⟩ := of_bindHypothesis hdb hbind
  obtain ⟨-, hfound⟩ := bindHypothesis_eq_ok_iff.1 hbind
  have hfree' : (doc.push (.hypothesis s)).ownsRef found.label = false := by
    rw [← Bool.not_eq_true, Document.ownsRef_push, hfree]
    rintro (hfalse | hsame)
    · exact Bool.false_ne_true hfalse
    · exact hne (Option.some.inj hsame).symm
  have hother : s.bound ≠ some found.id := by
    rw [hbound]
    intro hid
    have hsame := hdb.eq_of_id_eq hhyp (hdb.of_mem_hypothesesOf hmem).1 (Option.some.inj hid)
    exact hne (hsame ▸ href.symm)
  refine resolve_existing_eq_ok_iff.2 ⟨formula, found, hformula, ?_, rfl⟩
  rw [bindHypothesis_eq_ok_iff]
  cases hdraft : draft.ref with
  | none =>
      rw [hdraft] at hfound
      exact ⟨hfree', matchFormula_push hother hfound⟩
  | some label =>
      rw [hdraft] at hfound
      refine ⟨?_, hfound⟩
      rw [Option.getD_some, hlabel label hdraft]
      exact hfree'

end Resolution

namespace Worksheet

variable {db : Database} {target : Target} {theoremLabel label : String} {doc doc' : Document}
  {draft : StepDraft} {drafts : List StepDraft} {steps : List ProofStep}

lemma stepOf_eq_of_perm (hperm : doc.claims.Perm doc'.claims) (draft : StepDraft) :
    stepOf db target doc draft = stepOf db target doc' draft := by
  cases draft with
  | hypothesis draft => rw [stepOf, Resolution.resolve_eq_of_perm hperm, stepOf]
  | derivation draft => rfl

/-- **Two drafts change places**, and become the same steps: the one behind has a label. -/
lemma stepOf_exchange (hdb : db.WellFormed) {d : HypothesisDraft} (href : d.ref = some label)
    {s t : ProofStep} (ht : stepOf db (.existing theoremLabel) doc draft = .ok t)
    (hs : stepOf db (.existing theoremLabel) (doc.push t) (.hypothesis d) = .ok s) :
    stepOf db (.existing theoremLabel) doc (.hypothesis d) = .ok s ∧
      stepOf db (.existing theoremLabel) (doc.push s) draft = .ok t := by
  obtain ⟨later, hlater, rfl⟩ := stepOf_hypothesis_eq_ok_iff.1 hs
  refine ⟨stepOf_hypothesis_eq_ok_iff.2 ⟨later, Resolution.resolve_of_push href hlater, rfl⟩, ?_⟩
  cases draft with
  | derivation draft => exact ht
  | hypothesis draft =>
      obtain ⟨earlier, hearlier, rfl⟩ := stepOf_hypothesis_eq_ok_iff.1 ht
      obtain ⟨hyp, hhyp, hbound, hlabel⟩ := Resolution.of_resolve_existing hdb hlater
      have hne : earlier.ref ≠ later.ref := fun hsame =>
        Document.ownsRef_eq_false_iff.1 (Resolution.ownsRef_eq_false_of_resolve hlater)
          (.hypothesis earlier) (List.mem_append_right _ List.mem_cons_self) (congrArg some hsame)
      exact stepOf_hypothesis_eq_ok_iff.2
        ⟨earlier, Resolution.resolve_push hdb hhyp hbound hlabel hne hearlier, rfl⟩

/-! ### Any number of drafts -/

/-- Behind the steps of `doc`, the drafts become the steps of a list, one for one. -/
def Yields (db : Database) (target : Target) (doc : Document) (drafts : List StepDraft)
    (steps : List ProofStep) : Prop :=
  loadSteps db target doc drafts = .ok ⟨doc.steps ++ steps⟩

lemma exists_yields {final : Document} (h : loadSteps db target doc drafts = .ok final) :
    ∃ steps, final = ⟨doc.steps ++ steps⟩ ∧ Yields db target doc drafts steps := by
  obtain ⟨steps, hsteps⟩ := steps_prefix_of_loadSteps h
  obtain rfl : (⟨doc.steps ++ steps⟩ : Document) = final := congrArg Document.mk hsteps
  exact ⟨steps, rfl, h⟩

lemma yields_nil_iff : Yields db target doc [] steps ↔ steps = [] := by
  rw [Yields, loadSteps_nil_eq_ok_iff]
  constructor
  · intro h
    exact List.append_right_eq_self.1 (congrArg Document.steps h).symm
  · rintro rfl
    rw [List.append_nil]

lemma yields_cons_iff :
    Yields db target doc (draft :: drafts) steps ↔
      ∃ s rest, steps = s :: rest ∧ stepOf db target doc draft = .ok s ∧
        Yields db target (doc.push s) drafts rest := by
  constructor
  · intro h
    obtain ⟨s, hs, hrest⟩ := loadSteps_cons_eq_ok_iff.1 h
    obtain ⟨rest, hfinal, hrest⟩ := exists_yields hrest
    refine ⟨s, rest, ?_, hs, hrest⟩
    have hsteps := congrArg Document.steps hfinal
    rw [Document.push, List.append_assoc] at hsteps
    exact List.append_cancel_left hsteps
  · rintro ⟨s, rest, rfl, hs, hrest⟩
    refine loadSteps_cons_eq_ok_iff.2 ⟨s, hs, hrest.trans ?_⟩
    rw [Document.push, List.append_assoc, List.singleton_append]

lemma yields_append_iff {more : List StepDraft} :
    Yields db target doc (drafts ++ more) steps ↔
      ∃ front back, steps = front ++ back ∧ Yields db target doc drafts front ∧
        Yields db target ⟨doc.steps ++ front⟩ more back := by
  constructor
  · intro h
    obtain ⟨mid, hmid, h⟩ := loadSteps_append_eq_ok_iff.1 h
    obtain ⟨front, rfl, hfront⟩ := exists_yields hmid
    obtain ⟨back, hfinal, hback⟩ := exists_yields h
    refine ⟨front, back, ?_, hfront, hback⟩
    have hsteps := congrArg Document.steps hfinal
    rw [List.append_assoc] at hsteps
    exact List.append_cancel_left hsteps
  · rintro ⟨front, back, rfl, hfront, hback⟩
    refine loadSteps_append_eq_ok_iff.2 ⟨_, hfront, hback.trans ?_⟩
    rw [List.append_assoc]

namespace Yields

lemma length_eq (h : Yields db target doc drafts steps) : steps.length = drafts.length := by
  induction drafts generalizing doc steps with
  | nil => exact congrArg List.length (yields_nil_iff.1 h)
  | cons draft drafts ih =>
      obtain ⟨s, rest, rfl, -, hrest⟩ := yields_cons_iff.1 h
      rw [List.length_cons, List.length_cons, ih hrest]

/-- Drafts become the same steps behind other steps with the same claims, in whatever order. -/
lemma of_perm (hperm : doc.claims.Perm doc'.claims) (h : Yields db target doc drafts steps) :
    Yields db target doc' drafts steps := by
  induction drafts generalizing doc doc' steps with
  | nil => exact yields_nil_iff.2 (yields_nil_iff.1 h)
  | cons draft drafts ih =>
      obtain ⟨s, rest, rfl, hs, hrest⟩ := yields_cons_iff.1 h
      refine yields_cons_iff.2 ⟨s, rest, rfl, ?_, ih ?_ hrest⟩
      · rw [← hs]
        exact (stepOf_eq_of_perm hperm draft).symm
      · rw [Document.claims_push, Document.claims_push]
        exact hperm.append_right _

/-- **A draft with a label passes any number of drafts.** The induction goes along the drafts that
are passed: behind the first of them the draft has come to the front already, and there the two
change places. -/
lemma hoist (hdb : db.WellFormed) {d : HypothesisDraft} (href : d.ref = some label)
    {passed : List StepDraft} {middle : List ProofStep} {s : ProofStep}
    (hpassed : Yields db (.existing theoremLabel) doc passed middle)
    (hs : stepOf db (.existing theoremLabel) ⟨doc.steps ++ middle⟩ (.hypothesis d) = .ok s) :
    stepOf db (.existing theoremLabel) doc (.hypothesis d) = .ok s ∧
      Yields db (.existing theoremLabel) (doc.push s) passed middle := by
  induction passed generalizing doc middle with
  | nil =>
      obtain rfl := yields_nil_iff.1 hpassed
      rw [List.append_nil] at hs
      exact ⟨hs, yields_nil_iff.2 rfl⟩
  | cons draft passed ih =>
      obtain ⟨t, rest, rfl, ht, hrest⟩ := yields_cons_iff.1 hpassed
      rw [← List.singleton_append, ← List.append_assoc] at hs
      obtain ⟨hbehind, hyields⟩ := ih hrest hs
      obtain ⟨hfirst, ht'⟩ := stepOf_exchange hdb href ht hbehind
      refine ⟨hfirst, yields_cons_iff.2 ⟨t, rest, rfl, ht', hyields.of_perm ?_⟩⟩
      simp only [Document.claims_push, List.append_assoc]
      exact (List.Perm.swap _ _ _).append_left _

/-- The drafts behind the one that is moved see the same claims in another order. -/
lemma exists_hoisted (hdb : db.WellFormed) {d : HypothesisDraft} (href : d.ref = some label)
    {before passed after : List StepDraft}
    (h : Yields db (.existing theoremLabel) doc (before ++ passed ++ .hypothesis d :: after)
      steps) :
    ∃ front middle s back, steps = front ++ middle ++ s :: back ∧
      front.length = before.length ∧ middle.length = passed.length ∧ back.length = after.length ∧
        Yields db (.existing theoremLabel) doc (before ++ .hypothesis d :: passed ++ after)
          (front ++ s :: middle ++ back) := by
  obtain ⟨_, _, rfl, hpassed, hlast⟩ := yields_append_iff.1 h
  obtain ⟨front, middle, rfl, hfront, hmiddle⟩ := yields_append_iff.1 hpassed
  obtain ⟨s, back, rfl, hs, hback⟩ := yields_cons_iff.1 hlast
  rw [← List.append_assoc] at hs
  obtain ⟨hfirst, hmiddle'⟩ := hmiddle.hoist hdb href hs
  refine ⟨front, middle, s, back, rfl, hfront.length_eq, hmiddle.length_eq, hback.length_eq, ?_⟩
  refine yields_append_iff.2 ⟨_, back, rfl, yields_append_iff.2 ⟨front, _, rfl, hfront,
    yields_cons_iff.2 ⟨s, middle, rfl, hfirst, hmiddle'⟩⟩, hback.of_perm ?_⟩
  simp only [Document.claims, Document.push, List.map_append, List.append_assoc, List.map_cons,
    List.map_nil]
  exact ((List.perm_append_singleton _ _).append_left _).append_left _

end Yields

/-- **A draft with a label may be moved forward.** In a worksheet for a theorem of the database,
let a hypothesis draft with a label pass any drafts before it. The worksheet is loaded as before,
and every draft becomes the same step: the step of the draft that is moved passes the steps of the
others. -/
theorem ofDraft_hoist (hdb : db.Built) {draft : WorksheetDraft} {sheet : Worksheet}
    (h : ofDraft db draft = .ok sheet) (htarget : sheet.target = .existing theoremLabel)
    {before passed after : List StepDraft} {d : HypothesisDraft} (href : d.ref = some label)
    (hsplit : draft.steps = before ++ passed ++ .hypothesis d :: after) :
    ∃ front middle s back, sheet.document.steps = front ++ middle ++ s :: back ∧
      front.length = before.length ∧ middle.length = passed.length ∧ back.length = after.length ∧
        ofDraft db { draft with steps := before ++ .hypothesis d :: passed ++ after } =
          .ok { sheet with document := ⟨front ++ s :: middle ++ back⟩ } := by
  obtain ⟨name, hname, hlabel, hloc, hsteps⟩ := ofDraft_eq_ok_iff.1 h
  rw [htarget, hsplit] at hsteps
  obtain ⟨steps, hdocument, hyields⟩ := exists_yields hsteps
  obtain ⟨front, middle, s, back, rfl, hfront, hmiddle, hback, hhoisted⟩ :=
    hyields.exists_hoisted hdb.wellFormed href
  refine ⟨front, middle, s, back, congrArg Document.steps hdocument, hfront, hmiddle, hback, ?_⟩
  refine ofDraft_eq_ok_iff.2 ⟨name, hname, hlabel, hloc, ?_⟩
  rw [htarget]
  exact hhoisted

/-- Two hypotheses `a` and `b` of a theorem have one formula. A draft that names `b` is moved before
a draft with that formula and without a label, which gets `a` all the same. -/
theorem ofDraft_hoist_two_alike :
    ∃ db sheet, db.Built ∧
      ofDraft db ⟨some "t", none, [
        .hypothesis ⟨"1", none, some ⟨["x"]⟩, none, {}⟩,
        .hypothesis ⟨"2", none, some ⟨["y"]⟩, none, {}⟩,
        .hypothesis ⟨"3", some "b", some ⟨["x"]⟩, none, {}⟩]⟩ = .ok sheet ∧
      sheet.document.steps.map (fun s => (s.step, s.ref?)) =
        [("1", some "a"), ("2", some "c"), ("3", some "b")] ∧
      ∃ hoisted, ofDraft db ⟨some "t", none, [
          .hypothesis ⟨"3", some "b", some ⟨["x"]⟩, none, {}⟩,
          .hypothesis ⟨"1", none, some ⟨["x"]⟩, none, {}⟩,
          .hypothesis ⟨"2", none, some ⟨["y"]⟩, none, {}⟩]⟩ = .ok hoisted ∧
        hoisted.document.steps.map (fun s => (s.step, s.ref?)) =
          [("3", some "b"), ("1", some "a"), ("2", some "c")] := by
  let db : Database := ⟨[⟨0, "a", ⟨["x"]⟩, .logHyp⟩, ⟨1, "b", ⟨["x"]⟩, .logHyp⟩,
    ⟨2, "c", ⟨["y"]⟩, .logHyp⟩, ⟨3, "t", ⟨["z"]⟩, .provable [0, 1, 2]⟩], []⟩
  have hdb : db.Built :=
    ((Relation.ReflTransGen.single (.logHyp "a" ⟨["x"]⟩ rfl)).tail (.logHyp "b" ⟨["x"]⟩ rfl)).tail
      (.logHyp "c" ⟨["y"]⟩ rfl) |>.tail (.provable "t" ["a", "b", "c"] ⟨["z"]⟩ rfl)
  let draft : WorksheetDraft := ⟨some "t", none, [
    .hypothesis ⟨"1", none, some ⟨["x"]⟩, none, {}⟩,
    .hypothesis ⟨"2", none, some ⟨["y"]⟩, none, {}⟩,
    .hypothesis ⟨"3", some "b", some ⟨["x"]⟩, none, {}⟩]⟩
  have hsplit : draft.steps = [] ++ draft.steps.take 2 ++
      .hypothesis ⟨"3", some "b", some ⟨["x"]⟩, none, {}⟩ :: [] := rfl
  obtain ⟨sheet, hsheet⟩ : ∃ sheet, ofDraft db draft = .ok sheet := ⟨_, rfl⟩
  have htarget : sheet.target = .existing "t" := by
    cases hsheet
    rfl
  have hrefs : sheet.document.steps.map (fun s => (s.step, s.ref?)) =
      [("1", some "a"), ("2", some "c"), ("3", some "b")] := by
    cases hsheet
    rfl
  obtain ⟨front, middle, s, back, hsteps, hfront, -, hback, hhoisted⟩ :=
    ofDraft_hoist hdb hsheet htarget rfl hsplit
  obtain rfl := List.length_eq_zero_iff.1 hfront
  obtain rfl := List.length_eq_zero_iff.1 hback
  refine ⟨db, sheet, hdb, hsheet, hrefs, _, hhoisted, ?_⟩
  rw [hsteps, List.nil_append, List.map_append] at hrefs
  obtain ⟨hmiddle, hlast⟩ := List.append_inj' (show _ ++ [_] = [_, _] ++ [_] from hrefs) rfl
  rw [List.nil_append, List.append_nil, List.map_cons, hmiddle]
  exact congrArg (· :: _) (List.cons.inj hlast).1

end Worksheet

end ProofSheet
