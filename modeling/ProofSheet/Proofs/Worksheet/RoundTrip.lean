import ProofSheet.Proofs.Worksheet.Rereading

/-!
The round trip of worksheets: which worksheets are loaded from their own texts.

* `EndsInReturn`: a line that does not end where it is written to end, because a carriage return
  at its end belongs to the line break behind it;
* `Worksheet.toList_toText`: the text of a worksheet is written line by line from its draft;
* `Worksheet.not_endsInReturn_of_loadSteps`: steps that are loaded back do not end in a carriage
  return;
* `Worksheet.load_toText_iff`: **the round trip** of a worksheet that was loaded and edited succeeds
  exactly when no line of it ends in a carriage return.
-/

namespace ProofSheet

open Reading

/-- The last character of the text is a carriage return. -/
def EndsInReturn (text : String) : Prop :=
  text.toList.getLast? = some '\r'

instance (text : String) : Decidable (EndsInReturn text) :=
  inferInstanceAs (Decidable (_ = _))

namespace Worksheet

variable {db : Database} {target : Target} {doc : Document} {sheet : Worksheet}

/-! ### The text of a worksheet -/

/-- The text of a worksheet is its header line and the lines of its draft. -/
lemma toList_toText (h : ∀ s ∈ sheet.document.steps, s.Rendered) :
    sheet.toText.toList =
      sheetText sheet.theoremLabel sheet.locAfter (sheet.document.steps.map (·.draft)) := by
  have htexts : sheet.document.texts = sheet.document.steps.map (·.draft.text) :=
    List.map_congr_left fun s hs => (h s hs).text_eq
  have hlines : (String.join (sheet.document.texts.map (· ++ "\n"))).toList =
      linesOf (sheet.document.steps.map (·.draft)) := by
    rw [String.toList_join, htexts, linesOf, List.flatMap_map, List.flatMap_map, List.flatMap_map]
    simp
  have hheader : sheet.headerLine = headerText sheet.theoremLabel sheet.locAfter := rfl
  rw [toText, hheader, sheetText, footing]
  simp only [String.toList_append, hlines, List.append_assoc]
  rfl

/-! ### Steps that are loaded back -/

/-- What is read from the line of a step is the draft of the step, if it becomes the step. -/
lemma placed_eq_of_stepOf {s : ProofStep} (hs : s.draft.Legible) {rest t : List Char}
    (hrest : atSpace rest = false) {size : Nat} {read : StepDraft}
    (hread : nextStatement size (s.draft.text.toList ++ '\n' :: rest) = some (some read, t))
    (hstep : stepOf db target doc read = .ok s) : read.placed {} = s.draft.placed {} := by
  have hlegible : read.Legible := legible_of_nextStatement hread read rfl
  cases read with
  | derivation read =>
      obtain rfl := stepOf_derivation_eq_ok_iff.1 hstep
      rfl
  | hypothesis read =>
      obtain ⟨u, hu, rfl⟩ := stepOf_hypothesis_eq_ok_iff.1 hstep
      obtain ⟨-, hformula⟩ := Resolution.fields_of_resolve hu
      obtain ⟨hnumber, href⟩ := fields_of_nextStatement hs (Option.some_ne_none _) hrest hread
      obtain ⟨step, ref, formula, tree, caret⟩ := read
      obtain rfl : tree = none := hlegible.tree
      obtain rfl : step = u.step := hnumber
      obtain rfl : ref = written u.ref := href
      obtain rfl : formula = some u.formula := hformula
      rfl

/-- **Steps that are loaded back do not end in a carriage return.** -/
lemma not_endsInReturn_of_loadSteps {steps : List ProofStep}
    (hlegible : ∀ s ∈ steps, s.draft.Legible) {size : Nat}
    (h : loadSteps db target doc ((many (nextStatement size) (advances_nextStatement size)
      (linesOf (steps.map (·.draft)) ++ footing)).1.filterMap id) = .ok ⟨doc.steps ++ steps⟩) :
    ∀ s ∈ steps, ¬ EndsInReturn s.draft.text := by
  induction steps generalizing doc with
  | nil => simp
  | cons s steps ih =>
      obtain ⟨hs, hlegible⟩ := List.forall_mem_cons.1 hlegible
      have hrest : atSpace (linesOf (steps.map (·.draft)) ++ footing) = false :=
        atSpace_linesOf fun d hd => by
          obtain ⟨t, ht, rfl⟩ := List.mem_map.1 hd
          exact hlegible t ht
      rw [List.map_cons, linesOf_cons] at h
      cases hread : nextStatement size
        (s.draft.text.toList ++ '\n' :: (linesOf (steps.map (·.draft)) ++ footing)) with
      | none =>
          rw [many_of_none hread] at h
          have hlength := congrArg (·.steps.length) (loadSteps_nil_eq_ok_iff.1 h)
          simp at hlength
      | some read =>
          obtain ⟨read, t⟩ := read
          obtain ⟨draft, rfl⟩ := exists_of_nextStatement hs hread
          rw [many_of_some hread] at h
          have h : loadSteps db target doc (draft :: (many (nextStatement size)
              (advances_nextStatement size) t).1.filterMap id) =
                .ok ⟨doc.steps ++ s :: steps⟩ := h
          obtain ⟨hstep, h⟩ := of_loadSteps_cons h
          have hsame := placed_eq_of_stepOf hs hrest hread hstep
          have hend := not_breaksInto_of_nextStatement hs hrest hread hsame
          -- so the line was read as a whole, and the lines behind it are read next
          obtain ⟨caret, hwhole⟩ := nextStatement_text hs hrest hend size
          obtain ⟨-, rfl⟩ := Prod.mk.inj (Option.some.inj (hread.symm.trans hwhole))
          exact List.forall_mem_cons.2 ⟨fun hlast => hend ⟨hlast, rfl⟩, ih hlegible h⟩

/-! ### The round trip -/

/-- **The round trip.** A worksheet that was loaded from any text and then renumbered and laid out
in any way is loaded from its own text again, against the same database and with every field as
it was, exactly when neither its header line nor the text of a step ends in a carriage return. -/
theorem load_toText_iff (hdb : db.Built)
    (hlabels : ∀ s ∈ db.statements, Blankless s.label.toList)
    (h : Edited db Renumbering.Proper sheet) :
    load db sheet.toText = .ok sheet ↔
      ¬ EndsInReturn sheet.headerLine ∧ ∀ s ∈ sheet.document.steps, ¬ EndsInReturn s.text := by
  have hrereads := h.rereads hdb.wellFormed hlabels
  have hrendered : ∀ s ∈ sheet.document.steps, s.Rendered := fun s hs =>
    (ProofStep.layOut_eq_self_iff.1 (hrereads.layOut_step s hs)).1
  have htext := toList_toText hrendered
  obtain ⟨htarget, hload⟩ := hrereads.loadSteps_eq
  have hlabel : IsWord sheet.theoremLabel := hrereads.legible.theoremLabel _ rfl
  have hloc : IsWord? sheet.locAfter := hrereads.legible.locAfter
  rw [load_eq_ok_iff, WorksheetDraft.ofText?, htext]
  constructor
  · rintro ⟨⟨label, locAfter, reads⟩, hread, hsheet⟩
    obtain ⟨label', hlabel', htarget', hloc', hsteps⟩ := ofDraft_eq_ok_iff.1 hsheet
    obtain rfl : label = some sheet.theoremLabel :=
      hlabel'.trans (congrArg some (Target.label_of_ofLabel htarget').symm)
    obtain rfl : locAfter = sheet.locAfter := hloc'
    obtain ⟨hheader, rfl⟩ := of_worksheet_sheetText hlabel hloc hread
    refine ⟨hheader, fun s hs => ?_⟩
    rw [(hrendered s hs).text_eq]
    exact not_endsInReturn_of_loadSteps (fun s hs => hrereads.legible_draft hs) hsteps s hs
  · rintro ⟨hheader, hsteps⟩
    have hends : ∀ d ∈ sheet.document.steps.map (·.draft), d.text.toList.getLast? ≠ some '\r' := by
      intro d hd
      obtain ⟨s, hs, rfl⟩ := List.mem_map.1 hd
      rw [← (hrendered s hs).text_eq]
      exact hsteps s hs
    obtain ⟨reads, hreads, hread⟩ := exists_worksheet_sheetText hlabel hloc
      hrereads.legible.steps hheader hends (sheetText sheet.theoremLabel sheet.locAfter
        (sheet.document.steps.map (·.draft))).length
    exact ⟨_, hread, ofDraft_eq_ok_iff.2 ⟨_, rfl, htarget, rfl,
      loadSteps_eq_ok_of_placed_eq hreads hload⟩⟩

/-- A worksheet whose first step has got its label from the database, with the two numbers
exchanged, is loaded from its own text; one whose last symbol ends in a carriage return is not. -/
theorem load_toText_iff_exchanged :
    ∃ db sheet broken, Database.Built db ∧ (∀ s ∈ db.statements, Blankless s.label.toList) ∧
      (Edited db Renumbering.Proper sheet ∧ sheet.document.texts = ["h2::a.1 x", "1:2:a y"] ∧
        load db sheet.toText = .ok sheet) ∧
      (Edited db Renumbering.Proper broken ∧ broken.document.texts = ["h1::a.1 x", "2:1:a y\r"] ∧
        ¬ load db broken.toText = .ok broken) := by
  have hbuilt : Database.Built
      ⟨[⟨0, "a.1", ⟨["x"]⟩, .logHyp⟩, ⟨1, "a", ⟨["y"]⟩, .provable [0]⟩], []⟩ :=
    .tail (.tail .refl (.logHyp "a.1" ⟨["x"]⟩ rfl)) (.provable "a" ["a.1"] ⟨["y"]⟩ rfl)
  have hload : load ⟨[⟨0, "a.1", ⟨["x"]⟩, .logHyp⟩, ⟨1, "a", ⟨["y"]⟩, .provable [0]⟩], []⟩
      "$( <MM> <PROOF_ASST> THEOREM=a\nh1:: x\n2:1:a y\n$)" =
      .ok ⟨.existing "a", none, ⟨[
        .hypothesis ⟨"1", "a.1", ⟨["x"]⟩, .flat ParseTree.wff ⟨["x"]⟩, some 0, "h1::a.1 x", 1⟩,
        .derivation ⟨"2", ["1"], some "a", some ⟨["y"]⟩, "2:1:a y", 1⟩]⟩⟩ :=
    Except.eq_ok_of_toOption (by decide +kernel)
  have hbroken : load ⟨[⟨0, "a.1", ⟨["x"]⟩, .logHyp⟩, ⟨1, "a", ⟨["y"]⟩, .provable [0]⟩], []⟩
      "$( <MM> <PROOF_ASST> THEOREM=a\nh1:: x\n2:1:a y\r\r\n$)" =
      .ok ⟨.existing "a", none, ⟨[
        .hypothesis ⟨"1", "a.1", ⟨["x"]⟩, .flat ParseTree.wff ⟨["x"]⟩, some 0, "h1::a.1 x", 1⟩,
        .derivation ⟨"2", ["1"], some "a", some ⟨["y\r"]⟩, "2:1:a y\r", 1⟩]⟩⟩ :=
    Except.eq_ok_of_toOption (by decide +kernel)
  have hproper : Renumbering.Proper ⟨[("1", "2"), ("2", "1")]⟩ :=
    Renumbering.proper_of_pairs (by decide)
  have hedited := Edited.renumber (.load hload) hproper
  have hlabels : ∀ s ∈ [(⟨0, "a.1", ⟨["x"]⟩, .logHyp⟩ : Statement),
      ⟨1, "a", ⟨["y"]⟩, .provable [0]⟩], Blankless s.label.toList := by decide
  refine ⟨_, _, _, hbuilt, hlabels, ⟨hedited, by decide +kernel, ?_⟩, ⟨.load hbroken, rfl, ?_⟩⟩
  · exact (load_toText_iff hbuilt hlabels hedited).2 ⟨by decide +kernel, by decide +kernel⟩
  · intro h
    exact ((load_toText_iff hbuilt hlabels (.load hbroken)).1 h).2 _
      (List.mem_cons_of_mem _ List.mem_cons_self) (by decide +kernel)

end Worksheet

end ProofSheet
