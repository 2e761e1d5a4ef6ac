import ProofSheet.Proofs.Reading.Places
import ProofSheet.Proofs.Worksheet.Loading

/-!
Carets: where the editor puts its cursor.

* `exists_loadSteps_of_load`: what is known when a statement is to blame for a text that is refused;
* `exists_placedSheet_carets`: **the carets of a worksheet are the places of its statements**, in
  characters, also when they are counted from bytes; the caret of a load error is counted from the
  start of the first hypothesis statement that does not resolve.
-/

namespace ProofSheet.Worksheet

open Reading Text

variable {db : Database} {target : Target} {doc : Document} {draft : WorksheetDraft} {text : String}
  {e : LoadError}

/-- An error takes the place of its draft. -/
lemma caret_of_resolve {draft : HypothesisDraft}
    (h : Resolution.resolve db target doc draft = .error e) : e.caret = draft.caret.offset := by
  rw [Resolution.resolve, Except.mapError_eq_error_iff] at h
  obtain ⟨fault, -, rfl⟩ := h
  rfl

/-- If a statement is to blame, the theorem is known, and the steps are not settled. -/
lemma exists_loadSteps_of_ofDraft (h : ofDraft db draft = .error (.load e)) :
    ∃ target, (∃ label, draft.theoremLabel = some label ∧ Target.ofLabel db label = .ok target) ∧
      loadSteps db target {} draft.steps = .error e := by
  cases hlabel : draft.theoremLabel with
  | none => simp [ofDraft, hlabel] at h
  | some label =>
      cases htarget : Target.ofLabel db label with
      | error reason =>
          simp [ofDraft, hlabel, htarget, Except.mapError, bind, Except.bind] at h
      | ok target =>
          obtain ⟨e', heq, hsteps⟩ := (ofDraft_eq_error_iff hlabel htarget).1 h
          cases heq
          exact ⟨target, ⟨label, rfl, htarget⟩, hsteps⟩

/-- **The carets of a worksheet.** A text that follows the grammar is a layout of its draft, and the
caret of every draft is the place of its statement there: as many characters are before the
statement as the caret says, and as many before the end of its last token. So the caret is at most
at the end of the statement, and its offset is one more than the characters of the statement. A
counter of characters that is handed the statements in bytes, one after the other, finds the same
carets. And whatever the database, if a statement is to blame when the text is refused, it is the
first hypothesis step that does not resolve, and the error has its offset. -/
theorem exists_placedSheet_carets (h : WorksheetDraft.ofText? text = some draft) :
    ∃ places, PlacedSheet draft places text.toList ∧
      draft.steps.map StepDraft.caret = places.map Stretch.caret ∧
      (∀ d ∈ draft.steps, d.caret.lineStart ≤ d.caret.currentChar) ∧
      draft.steps.map (·.caret.offset) = places.map (·.own.length + 1) ∧
      CharCounter.carets? { text := text.toList } (places.map Stretch.span) =
        some (draft.steps.map StepDraft.caret) ∧
      ∀ db e, load db text = .error (.load e) →
        ∃ target pre d post mid ps place qs,
          (∃ label, draft.theoremLabel = some label ∧ Target.ofLabel db label = .ok target) ∧
          draft.steps = pre ++ .hypothesis d :: post ∧
          loadSteps db target {} pre = .ok mid ∧ Resolution.resolve db target mid d = .error e ∧
          places = ps ++ place :: qs ∧ ps.length = pre.length ∧
          StatementText (.hypothesis d) place.own ∧ e.caret = place.own.length + 1 := by
  obtain ⟨places, hsheet, hcarets⟩ := exists_placedSheet h
  have hoffsets : draft.steps.map (·.caret.offset) = places.map (·.own.length + 1) := by
    have hmap := congrArg (List.map Caret.offset) hcarets
    simpa only [List.map_map, Function.comp_def, Stretch.offset_caret] using hmap
  refine ⟨places, hsheet, hcarets, fun d hd => ?_, hoffsets, ?_, fun db e hload => ?_⟩
  · obtain ⟨place, -, hplace⟩ :=
      List.mem_map.1 (hcarets ▸ List.mem_map_of_mem (f := StepDraft.caret) hd)
    rw [← hplace]
    exact Nat.le_add_right _ _
  · have hstart : CharCounter.Counts { text := text.toList } := CharCounter.counts_start _
    rw [CharCounter.carets?_span hstart hsheet.isIn, hcarets]
  · rw [load, h] at hload
    obtain ⟨target, htarget, hsteps⟩ := exists_loadSteps_of_ofDraft hload
    obtain ⟨pre, d, post, mid, hdrafts, hmid, hresolve⟩ := of_loadSteps_eq_error hsteps
    obtain ⟨_, _, _, _, _, _, _, _, -, -, -, -, -, hbody, -⟩ := hsheet
    obtain ⟨ps, place, qs, rfl, hlength, hplace⟩ := hbody.exists_place hdrafts
    have hoffset : d.caret.offset = place.own.length + 1 := by
      rw [hdrafts, List.map_append, List.map_append] at hoffsets
      exact (List.cons.inj (List.append_inj hoffsets (by simp [hlength])).2).1
    exact ⟨target, pre, d, post, mid, ps, place, qs, htarget, hdrafts, hmid, hresolve, rfl, hlength,
      hplace, (caret_of_resolve hresolve).trans hoffset⟩

/-- A comment with a line that continues it, characters of two to four bytes, both kinds of line
break and formulas on two lines; the second statement takes the label of the first again. -/
theorem exists_placedSheet_carets_note :
    let text := "$( <MM> <PROOF_ASST> THEOREM=t\r\n* é\n  ∀\n\n" ++
      "h1:: ∀\n x \t\nh2::t.1 𝔸\r\n\ty\nqed::\n$)"
    ∃ draft, WorksheetDraft.ofText? text = some draft ∧
      draft.steps.map StepDraft.caret = [⟨50, 41⟩, ⟨66, 53⟩, ⟨72, 67⟩] ∧
      ∃ e, load {} text = .error (.load e) ∧ ∃ places, PlacedSheet draft places text.toList ∧
        ∃ place ∈ places, e.caret = place.own.length + 1 ∧ e.caret = 14 := by
  intro text
  let draft : WorksheetDraft := ⟨some "t", none,
    [.hypothesis ⟨"1", none, some ⟨["∀", "x"]⟩, none, ⟨50, 41⟩⟩,
      .hypothesis ⟨"2", some "t.1", some ⟨["𝔸", "y"]⟩, none, ⟨66, 53⟩⟩,
      .derivation ⟨"qed", [], none, none, ⟨72, 67⟩⟩]⟩
  have hdraft : WorksheetDraft.ofText? text = some draft := by decide +kernel
  have hload : load {} text = .error (.load ⟨"t", "2", .duplicateRefLabel "t.1", 14⟩) := by
    rw [load, hdraft]
    rfl
  obtain ⟨places, hsheet, -, -, -, -, hblame⟩ := exists_placedSheet_carets hdraft
  obtain ⟨_, _, _, _, _, _, place, _, -, -, -, -, rfl, -, -, hcaret⟩ := hblame {} _ hload
  exact ⟨draft, hdraft, rfl, _, hload, _, hsheet, place, by simp, hcaret, rfl⟩

end ProofSheet.Worksheet
