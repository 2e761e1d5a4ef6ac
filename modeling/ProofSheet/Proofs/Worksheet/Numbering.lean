import Mathlib.Data.List.Induction
import ProofSheet.Proofs.Worksheet.Loading

/-!
The labels that a new theorem makes up for its hypotheses: the label of the theorem, a full stop and
a number.

* `Label.numbered`, `Label.numbered_injective`: these labels, and that they are different;
* `Label.isWellFormed_numbered`, `Label.isReserved_numbered`: which of them are well formed, and
  that none is the name of a device;
* `Document.Numbers`: the invariant of the loading. The hypothesis steps have the first of these
  labels, in order, and every other label that is owned is one of a derivation draft;
* `Document.Numbers.exists_resolve_iff`, `Document.Numbers.of_loadSteps`: what the next draft needs,
  and a whole load;
* `Worksheet.exists_loadSteps_iff_spares`: all drafts are settled when each of them finds its label
  free;
* `Worksheet.ofDraft_numbered`: **which worksheets without labels are accepted** for a new theorem,
  and which labels their steps get.
-/

namespace ProofSheet

/-! ### Numbered labels -/

namespace Label

/-- The label made up for the hypothesis of a new theorem with a number. -/
def numbered (theoremLabel : String) (n : Nat) : String :=
  theoremLabel ++ "." ++ toString n

lemma toList_numbered (theoremLabel : String) (n : Nat) :
    (numbered theoremLabel n).toList = theoremLabel.toList ++ '.' :: Nat.toDigits 10 n := by
  rw [numbered, String.toList_append, String.toList_append, List.append_assoc,
    Nat.toString_eq_repr, Nat.toList_repr]
  rfl

lemma numbered_injective (theoremLabel : String) : Function.Injective (numbered theoremLabel) := by
  intro n m h
  have hlists := congrArg String.toList h
  rw [toList_numbered, toList_numbered] at hlists
  have hdigits := (List.cons.inj (List.append_cancel_left hlists)).2
  rw [← Nat.ofDigitChars_ten_toDigits (n := n), hdigits, Nat.ofDigitChars_ten_toDigits]

/-- The full stop and the digits are label characters. -/
lemma isWellFormed_numbered (theoremLabel : String) (n : Nat) :
    isWellFormed (numbered theoremLabel n) = theoremLabel.toList.all isLabelChar := by
  have hdigits : (Nat.toDigits 10 n).all isLabelChar = true := by
    refine List.all_eq_true.2 fun c hc => ?_
    have hdigit := Nat.isDigit_of_mem_toDigits (by decide) (by decide) hc
    simp [isLabelChar, Char.isAlphanum, hdigit]
  have hstop : isLabelChar '.' = true := by decide
  rw [isWellFormed, toList_numbered, List.all_append, List.all_cons, hdigits, hstop]
  simp

/-- No name of a device has a full stop. -/
lemma isReserved_numbered (theoremLabel : String) (n : Nat) :
    isReserved (numbered theoremLabel n) = false := by
  have hstop : ∀ name ∈ deviceNames, '.' ∉ name.toList := by decide
  refine List.any_eq_false.2 fun name hname heq => hstop name hname ?_
  rw [beq_iff_eq.1 heq, toList_numbered]
  exact List.mem_map.2 ⟨'.', List.mem_append_right _ List.mem_cons_self, by decide⟩

end Label

/-! ### What the drafts ask for -/

namespace StepDraft

/-- The draft is one of a hypothesis step. -/
def isHypothesis : StepDraft → Bool
  | .hypothesis _ => true
  | .derivation _ => false

/-- The draft waits for its label: a hypothesis step has a formula and no label. -/
def Unnamed : StepDraft → Prop
  | .hypothesis draft => draft.ref = none ∧ draft.formula.isSome = true
  | .derivation _ => True

instance : ∀ draft : StepDraft, Decidable draft.Unnamed
  | .hypothesis draft =>
    inferInstanceAs (Decidable (draft.ref = none ∧ draft.formula.isSome = true))
  | .derivation _ => inferInstanceAs (Decidable True)

variable {drafts before after : List StepDraft}

lemma countP_concat_isHypothesis (draft : HypothesisDraft) :
    (before ++ [StepDraft.hypothesis draft]).countP (·.isHypothesis) =
      before.countP (·.isHypothesis) + 1 := by
  rw [List.countP_append, List.countP_singleton]
  rfl

/-- A hypothesis draft in the middle is not behind all of them. -/
lemma countP_lt_of_split {draft : HypothesisDraft}
    (h : drafts = before ++ .hypothesis draft :: after) :
    before.countP (·.isHypothesis) < drafts.countP (·.isHypothesis) := by
  rw [h, List.countP_append, List.countP_cons_of_pos rfl]
  omega

/-- There is one for every smaller number. -/
lemma exists_split_of_lt_countP {i : Nat} (h : i < drafts.countP (·.isHypothesis)) :
    ∃ before draft after, drafts = before ++ .hypothesis draft :: after ∧
      before.countP (·.isHypothesis) = i := by
  induction drafts using List.reverseRecOn with
  | nil => exact absurd h (Nat.not_lt_zero i)
  | append_singleton drafts last ih =>
      by_cases hlt : i < drafts.countP (·.isHypothesis)
      · obtain ⟨before, draft, after, rfl, hcount⟩ := ih hlt
        exact ⟨before, draft, after ++ [last], by rw [List.append_assoc, List.cons_append], hcount⟩
      · cases last with
        | hypothesis draft =>
            rw [countP_concat_isHypothesis] at h
            exact ⟨drafts, draft, [], rfl, by omega⟩
        | derivation draft =>
            rw [List.countP_append, List.countP_singleton] at h
            exact absurd h hlt

end StepDraft

/-- The label that the draft behind the given ones gets in a new theorem is well formed and not
taken in the database, and no derivation draft has it. -/
structure Database.Spares (db : Database) (theoremLabel : String) (before : List StepDraft) :
    Prop where
  wellFormed : theoremLabel.toList.all Label.isLabelChar = true
  free : db.contains (Label.numbered theoremLabel (before.countP (·.isHypothesis) + 1)) = false
  derivations : ∀ draft, .derivation draft ∈ before →
    draft.ref ≠ some (Label.numbered theoremLabel (before.countP (·.isHypothesis) + 1))

/-! ### Reserving a label that is made up -/

namespace Resolution

variable {db : Database} {theoremLabel label : String} {doc : Document}

lemma reserve_none_eq_ok_iff :
    reserve db theoremLabel doc none = .ok label ↔
      label = Label.numbered theoremLabel (doc.hypothesisCount + 1) ∧
        doc.ownsRef label = false ∧ db.contains label = false ∧
          theoremLabel.toList.all Label.isLabelChar = true := by
  rw [reserve_eq_ok_iff]
  refine and_congr_right ?_
  rintro rfl
  rw [Option.getD_none, nextLabel, ← Label.numbered, Label.isWellFormed_numbered,
    Label.isReserved_numbered]
  simp only [and_true]

lemma reserve_none_ne_prohibitedLabel :
    reserve db theoremLabel doc none ≠ .error (.prohibitedLabel label) := by
  intro h
  have hnext : Label.isReserved (nextLabel theoremLabel doc) = false :=
    Label.isReserved_numbered theoremLabel _
  rw [reserve, Option.getD_none, Except.bind_eq_error_iff, hnext] at h
  rcases h with h | ⟨-, -, h⟩
  · cases (checkUnowned_eq_error_iff.1 h).2
  · -- whichever check fails, it is not the one for names of devices
    split at h
    · cases h
    · split at h
      · cases h
      · cases h

/-- A draft that makes its label up does not hit on a name of a device. -/
lemma fault_ne_prohibitedLabel {draft : HypothesisDraft} (href : draft.ref = none)
    {e : LoadError} (h : resolve db (.fresh theoremLabel) doc draft = .error e) :
    e.fault ≠ .prohibitedLabel label := by
  intro hfault
  rcases of_resolve_eq_error h with hmissing | ⟨formula, hreserve⟩
  · cases hmissing.symm.trans hfault
  · rw [href, hfault] at hreserve
    exact reserve_none_ne_prohibitedLabel hreserve

end Resolution

/-! ### The invariant of the loading -/

/-- The hypothesis steps have the first labels of the theorem, as many as there were hypothesis
drafts, and any other label that is owned is one of a derivation draft. -/
structure Document.Numbers (doc : Document) (theoremLabel : String) (before : List StepDraft) :
    Prop where
  refs : doc.hypotheses.map (·.ref) =
    (List.range (before.countP (·.isHypothesis))).map fun i => Label.numbered theoremLabel (i + 1)
  owns : ∀ label, doc.ownsRef label = true ↔
    label ∈ doc.hypotheses.map (·.ref) ∨ ∃ draft, .derivation draft ∈ before ∧
      draft.ref = some label

namespace Document.Numbers

variable {db : Database} {theoremLabel : String} {doc : Document} {before : List StepDraft}

lemma empty (theoremLabel : String) : Numbers {} theoremLabel [] where
  refs := rfl
  owns label := by simp [ownsRef, findRef?, hypotheses]

lemma hypothesisCount_eq (h : doc.Numbers theoremLabel before) :
    doc.hypothesisCount = before.countP (·.isHypothesis) := by
  have hlength := congrArg List.length h.refs
  rw [List.length_map, List.length_map, List.length_range] at hlength
  exact hlength

/-- The next label is none of those that the hypothesis steps have. -/
lemma ownsRef_next_iff (h : doc.Numbers theoremLabel before) :
    doc.ownsRef (Label.numbered theoremLabel (before.countP (·.isHypothesis) + 1)) = true ↔
      ∃ draft, .derivation draft ∈ before ∧
        draft.ref = some (Label.numbered theoremLabel (before.countP (·.isHypothesis) + 1)) := by
  rw [h.owns, h.refs]
  refine or_iff_right fun hmem => ?_
  obtain ⟨i, hi, hsame⟩ := List.mem_map.1 hmem
  have hnumber := Label.numbered_injective theoremLabel hsame
  have hlt := List.mem_range.1 hi
  omega

/-- **What the next draft needs** is that its label is free. -/
lemma exists_resolve_iff (h : doc.Numbers theoremLabel before) {draft : HypothesisDraft}
    (hdraft : StepDraft.Unnamed (.hypothesis draft)) :
    (∃ s, Resolution.resolve db (.fresh theoremLabel) doc draft = .ok s) ↔
      db.Spares theoremLabel before := by
  obtain ⟨href, hsome⟩ := hdraft
  obtain ⟨formula, hformula⟩ := Option.isSome_iff_exists.1 hsome
  have howned : doc.ownsRef (Label.numbered theoremLabel (before.countP (·.isHypothesis) + 1)) =
      false ↔ ∀ draft, .derivation draft ∈ before →
        draft.ref ≠ some (Label.numbered theoremLabel (before.countP (·.isHypothesis) + 1)) := by
    rw [← Bool.not_eq_true, h.ownsRef_next_iff]
    simp only [not_exists, not_and, ne_eq]
  simp only [Resolution.resolve_fresh_eq_ok_iff, href, Resolution.reserve_none_eq_ok_iff,
    h.hypothesisCount_eq]
  constructor
  · rintro ⟨-, -, -, -, ⟨rfl, hfree, hnew, hchars⟩, -⟩
    exact ⟨hchars, hnew, howned.1 hfree⟩
  · intro hspares
    exact ⟨_, formula, _, hformula,
      ⟨rfl, howned.2 hspares.derivations, hspares.free, hspares.wellFormed⟩, rfl⟩

lemma pushDerivation (h : doc.Numbers theoremLabel before) (draft : DerivationDraft) :
    (doc.push (.derivation draft.toStep)).Numbers theoremLabel
      (before ++ [.derivation draft]) where
  refs := by
    rw [hypotheses_push_derivation, h.refs, List.countP_append]
    rfl
  owns label := by
    rw [ownsRef_push, h.owns, hypotheses_push_derivation, or_assoc]
    refine or_congr_right ?_
    simp [or_and_right, exists_or, ProofStep.ref?, DerivationDraft.toStep,
      DerivationStep.ofFields, DerivationStep.layOut]

lemma pushHypothesis (h : doc.Numbers theoremLabel before) {draft : HypothesisDraft}
    {s : HypothesisStep}
    (hs : s.ref = Label.numbered theoremLabel (before.countP (·.isHypothesis) + 1)) :
    (doc.push (.hypothesis s)).Numbers theoremLabel (before ++ [.hypothesis draft]) where
  refs := by
    rw [hypotheses_push_hypothesis, List.map_append, h.refs, StepDraft.countP_concat_isHypothesis,
      List.range_succ, List.map_append, List.map_singleton, List.map_singleton, hs]
  owns label := by
    rw [ownsRef_push, h.owns, hypotheses_push_hypothesis, List.map_append, List.mem_append,
      or_right_comm]
    simp [ProofStep.ref?, eq_comm]

/-- The step of the invariant. -/
lemma step (h : doc.Numbers theoremLabel before) {draft : StepDraft} (hdraft : draft.Unnamed)
    {s : ProofStep} (hs : Worksheet.stepOf db (.fresh theoremLabel) doc draft = .ok s) :
    (doc.push s).Numbers theoremLabel (before ++ [draft]) := by
  cases draft with
  | derivation draft =>
      obtain rfl := Worksheet.stepOf_derivation_eq_ok_iff.1 hs
      exact h.pushDerivation draft
  | hypothesis draft =>
      obtain ⟨t, ht, rfl⟩ := Worksheet.stepOf_hypothesis_eq_ok_iff.1 hs
      obtain ⟨formula, label, -, hreserve, rfl⟩ := Resolution.resolve_fresh_eq_ok_iff.1 ht
      rw [hdraft.1, Resolution.reserve_none_eq_ok_iff, h.hypothesisCount_eq] at hreserve
      exact h.pushHypothesis hreserve.1

/-- The invariant of a whole load. -/
lemma of_loadSteps {drafts : List StepDraft} (hdrafts : ∀ d ∈ drafts, d.Unnamed)
    (h : Worksheet.loadSteps db (.fresh theoremLabel) {} drafts = .ok doc) :
    doc.Numbers theoremLabel drafts := by
  induction drafts using List.reverseRecOn generalizing doc with
  | nil => exact Worksheet.loadSteps_nil_eq_ok_iff.1 h ▸ .empty theoremLabel
  | append_singleton drafts draft ih =>
      obtain ⟨mid, s, hmid, hs, rfl⟩ := Worksheet.loadSteps_concat_eq_ok_iff.1 h
      obtain ⟨hdrafts, hdraft⟩ := List.forall_mem_append.1 hdrafts
      exact (ih hdrafts hmid).step (hdraft draft (List.mem_singleton_self _)) hs

end Document.Numbers

/-! ### Worksheets without labels -/

namespace Worksheet

variable {db : Database} {theoremLabel : String} {drafts : List StepDraft}

/-- All drafts are settled when each hypothesis draft finds its label free. -/
lemma exists_loadSteps_iff_spares (hdrafts : ∀ d ∈ drafts, d.Unnamed) :
    (∃ doc, loadSteps db (.fresh theoremLabel) {} drafts = .ok doc) ↔
      ∀ before draft after, drafts = before ++ .hypothesis draft :: after →
        db.Spares theoremLabel before := by
  constructor
  · rintro ⟨doc, h⟩ before draft after rfl
    obtain ⟨hbefore, hdraft⟩ := List.forall_mem_append.1 hdrafts
    obtain ⟨mid, hmid, h⟩ := loadSteps_append_eq_ok_iff.1 h
    obtain ⟨s, hs, -⟩ := loadSteps_cons_eq_ok_iff.1 h
    obtain ⟨t, ht, -⟩ := stepOf_hypothesis_eq_ok_iff.1 hs
    exact ((Document.Numbers.of_loadSteps hbefore hmid).exists_resolve_iff
      (hdraft _ List.mem_cons_self)).1 ⟨t, ht⟩
  · intro hspares
    cases h : loadSteps db (.fresh theoremLabel) {} drafts with
    | ok doc => exact ⟨doc, rfl⟩
    | error e =>
        obtain ⟨before, draft, after, mid, rfl, hmid, hblamed⟩ := of_loadSteps_eq_error h
        obtain ⟨hbefore, hdraft⟩ := List.forall_mem_append.1 hdrafts
        obtain ⟨s, hs⟩ := ((Document.Numbers.of_loadSteps hbefore hmid).exists_resolve_iff
          (hdraft _ List.mem_cons_self)).2 (hspares before draft after rfl)
        cases hblamed.symm.trans hs

/-- There is a hypothesis draft to ask for every number. -/
lemma forall_spares_iff (hsome : 0 < drafts.countP (·.isHypothesis)) :
    (∀ before draft after, drafts = before ++ .hypothesis draft :: after →
      db.Spares theoremLabel before) ↔
    theoremLabel.toList.all Label.isLabelChar = true ∧
      (∀ i < drafts.countP (·.isHypothesis),
        db.contains (Label.numbered theoremLabel (i + 1)) = false) ∧
      ∀ before draft after, drafts = before ++ .hypothesis draft :: after →
        ∀ other, .derivation other ∈ before → other.ref ≠
          some (Label.numbered theoremLabel (before.countP (·.isHypothesis) + 1)) := by
  constructor
  · intro hspares
    refine ⟨?_, fun i hi => ?_, fun before draft after hsplit =>
      (hspares before draft after hsplit).derivations⟩
    · obtain ⟨before, draft, after, hsplit, -⟩ := StepDraft.exists_split_of_lt_countP hsome
      exact (hspares before draft after hsplit).wellFormed
    · obtain ⟨before, draft, after, hsplit, rfl⟩ := StepDraft.exists_split_of_lt_countP hi
      exact (hspares before draft after hsplit).free
  · rintro ⟨hchars, hfree, hderivations⟩ before draft after hsplit
    exact ⟨hchars, hfree _ (StepDraft.countP_lt_of_split hsplit),
      hderivations before draft after hsplit⟩

/-- **Which labels are made up for the hypotheses of a new theorem.** In the draft of a worksheet
for a theorem that the database does not have, let there be hypothesis drafts, all of them with a
formula and without a label, and any derivation drafts in between. It is accepted exactly when the
characters of the theorem's label are label characters, the labels made up of it are neither
statements nor symbols, and no derivation draft before a hypothesis draft has the label that is
made up for that one. Then the hypothesis steps get these labels, in order. A label that is made up
is never the name of a device. -/
theorem ofDraft_numbered {draft : WorksheetDraft} (hlabel : draft.theoremLabel = some theoremLabel)
    (hnew : db.find? theoremLabel = none) (hdrafts : ∀ d ∈ draft.steps, d.Unnamed)
    (hsome : 0 < draft.steps.countP (·.isHypothesis)) :
    ((∃ sheet, ofDraft db draft = .ok sheet) ↔
      theoremLabel.toList.all Label.isLabelChar = true ∧
        (∀ i < draft.steps.countP (·.isHypothesis),
          db.contains (Label.numbered theoremLabel (i + 1)) = false) ∧
        ∀ before d after, draft.steps = before ++ .hypothesis d :: after →
          ∀ other, .derivation other ∈ before → other.ref ≠
            some (Label.numbered theoremLabel (before.countP (·.isHypothesis) + 1))) ∧
    (∀ sheet, ofDraft db draft = .ok sheet →
      sheet.document.hypotheses.map (·.ref) =
        (List.range (draft.steps.countP (·.isHypothesis))).map
          fun i => Label.numbered theoremLabel (i + 1)) ∧
    ∀ e label, ofDraft db draft = .error (.load e) → e.fault ≠ .prohibitedLabel label := by
  have htarget : Target.ofLabel db theoremLabel = .ok (.fresh theoremLabel) :=
    Target.ofLabel_eq_fresh_iff.2 ⟨rfl, hnew⟩
  refine ⟨?_, fun sheet h => ?_, fun e label h => ?_⟩
  · rw [exists_ofDraft_iff hlabel htarget, exists_loadSteps_iff_spares hdrafts,
      forall_spares_iff hsome]
  · exact (Document.Numbers.of_loadSteps hdrafts (loadSteps_of_ofDraft hlabel htarget h)).refs
  · obtain ⟨_, ⟨⟩, hsteps⟩ := (ofDraft_eq_error_iff hlabel htarget).1 h
    obtain ⟨before, d, after, mid, hsplit, -, hblamed⟩ := of_loadSteps_eq_error hsteps
    have hd : StepDraft.hypothesis d ∈ draft.steps :=
      hsplit ▸ List.mem_append_right _ List.mem_cons_self
    exact Resolution.fault_ne_prohibitedLabel (hdrafts _ hd).1 hblamed

/-- Two hypotheses with a derivation step in between. The step may have the label `t.1` of the
hypothesis before it, and not the label `t.2` of the one behind it. -/
theorem ofDraft_numbered_two :
    (∃ sheet, ofDraft {} ⟨some "t", none, [
        .hypothesis ⟨"1", none, some ⟨["x"]⟩, none, {}⟩,
        .derivation ⟨"2", ["1"], some "t.1", none, {}⟩,
        .hypothesis ⟨"3", none, some ⟨["x"]⟩, none, {}⟩]⟩ = .ok sheet ∧
      sheet.document.hypotheses.map (·.ref) = ["t.1", "t.2"]) ∧
    (¬ ∃ sheet, ofDraft {} ⟨some "t", none, [
        .hypothesis ⟨"1", none, some ⟨["x"]⟩, none, {}⟩,
        .derivation ⟨"2", ["1"], some "t.2", none, {}⟩,
        .hypothesis ⟨"3", none, some ⟨["x"]⟩, none, {}⟩]⟩ = .ok sheet) := by
  have hnew : Database.find? {} "t" = none := rfl
  constructor
  · let draft : WorksheetDraft := ⟨some "t", none, [
      .hypothesis ⟨"1", none, some ⟨["x"]⟩, none, {}⟩,
      .derivation ⟨"2", ["1"], some "t.1", none, {}⟩,
      .hypothesis ⟨"3", none, some ⟨["x"]⟩, none, {}⟩]⟩
    obtain ⟨sheet, hsheet⟩ : ∃ sheet, ofDraft {} draft = .ok sheet := ⟨_, rfl⟩
    have hdrafts : ∀ d ∈ draft.steps, d.Unnamed := by decide
    obtain ⟨-, hrefs, -⟩ := ofDraft_numbered rfl hnew hdrafts (by decide)
    exact ⟨sheet, hsheet, (hrefs sheet hsheet).trans (by decide)⟩
  · let draft : WorksheetDraft := ⟨some "t", none, [
      .hypothesis ⟨"1", none, some ⟨["x"]⟩, none, {}⟩,
      .derivation ⟨"2", ["1"], some "t.2", none, {}⟩,
      .hypothesis ⟨"3", none, some ⟨["x"]⟩, none, {}⟩]⟩
    have hdrafts : ∀ d ∈ draft.steps, d.Unnamed := by decide
    obtain ⟨hiff, -⟩ := ofDraft_numbered rfl hnew hdrafts (by decide)
    intro hsheet
    obtain ⟨-, -, hderivations⟩ := hiff.1 hsheet
    refine hderivations [_, _] _ [] rfl _ (List.mem_cons_of_mem _ List.mem_cons_self) ?_
    decide

end Worksheet

end ProofSheet
