import ProofSheet.Proofs.Document.Renumbering
import ProofSheet.Proofs.Worksheet.Editing
import ProofSheet.Worksheet.Printing

/-!
The upkeep of a worksheet that is edited. A step keeps its text and the number of its lines beside
the fields that they follow from. A renumbering replaces the front of the text and leaves the number
of lines alone, so both could drift away from the fields.

* `ProofStep.Coherent`, `ProofStep.Counted`: the invariants of editing, for the text and for the
  lines; the lines need numbers without line feeds (`Renumbering.Unbroken`);
* `ProofStep.Coherent.printed_eq`: a coherent step is printed as it is written;
* `Worksheet.Edited.coherent_printed_counted`: **nothing drifts**, whatever is loaded and however it
  is edited;
* `Worksheet.Edited.renumber_andThen_back`: **renumberings compose, and can be undone**, down to the
  texts and the numbers of lines.
-/

namespace ProofSheet

/-! ### Numbers without line feeds -/

namespace Renumbering

variable {m : Renumbering}

/-- No new number has a line feed in it. -/
def Unbroken (m : Renumbering) : Prop :=
  ∀ old new, m.target? old = some new → '\n' ∉ new.toList

/-- It is enough to look at the pairs. -/
lemma unbroken_of_pairs (h : ∀ pair ∈ m.pairs, '\n' ∉ pair.2.toList) : m.Unbroken :=
  fun _ _ hnew => h _ (mem_pairs_of_target? hnew)

lemma Unbroken.not_mem_apply (hm : m.Unbroken) {n : String} (hn : '\n' ∉ n.toList) :
    '\n' ∉ (m.apply n).toList := by
  rw [apply]
  cases hnew : m.target? n with
  | none => exact hn
  | some new => exact hm n new hnew

end Renumbering

/-! ### Coherent steps -/

namespace ProofStep

variable {s : ProofStep}

/-- The text of the step is what its fields are written as, and its formula is not empty. -/
structure Coherent (s : ProofStep) : Prop where
  rendered : s.Rendered
  formula : ∀ f ∈ s.formula?, f.isEmpty = false

namespace Coherent

lemma of_stepOf {db : Database} {target : Target} {doc : Document} {draft : StepDraft}
    (hdraft : draft.Legible) (hs : Worksheet.stepOf db target doc draft = .ok s) : s.Coherent where
  rendered := (layOut_eq_self_iff.1 (Worksheet.layOut_of_stepOf hs)).1
  formula f hf := by
    obtain ⟨hne, -⟩ := (Worksheet.legible_of_stepOf hdraft hs).2 f hf
    exact List.isEmpty_eq_false_iff.2 hne

lemma renumber (h : s.Coherent) (m : Renumbering) : (s.renumber m).Coherent where
  rendered := h.rendered.renumber m
  formula := by
    rw [s.formula?_renumber]
    exact h.formula

lemma layOut (h : s.Coherent) : s.layOut.Coherent where
  rendered := s.rendered_layOut
  formula := by
    rw [s.formula?_layOut]
    exact h.formula

/-- The formula is in the text. -/
lemma text_eq (h : s.Coherent) {f : Formula} (hf : f ∈ s.formula?) :
    s.text = s.header ++ " " ++ f.toText := by
  rw [h.rendered, Option.mem_def.1 hf, statementText, h.formula f hf]
  rfl

/-- **A coherent step is printed as it is written.** -/
lemma printed_eq (h : s.Coherent) : s.printed false .full = s.text := by
  have hheader : s.printedHeader false = s.header := by cases s <;> rfl
  cases hf : s.formula? with
  | none =>
      simp only [printed, hf, hheader]
      rw [h.rendered, hf, statementText]
  | some f =>
      simp only [printed, hf, hheader]
      exact (h.text_eq hf).symm

end Coherent

/-! ### Counted steps -/

/-- The number of lines is that of the text, and no number in the step has a line feed in it. -/
structure Counted (s : ProofStep) : Prop where
  rendered : s.Rendered
  lineCount : s.lineCount = Text.lineCount s.text
  numbers : ∀ n ∈ s.numbers, '\n' ∉ n.toList

namespace Counted

lemma of_stepOf {db : Database} {target : Target} {doc : Document} {draft : StepDraft}
    (hdraft : draft.Legible) (hs : Worksheet.stepOf db target doc draft = .ok s) : s.Counted where
  rendered := (layOut_eq_self_iff.1 (Worksheet.layOut_of_stepOf hs)).1
  lineCount := (layOut_eq_self_iff.1 (Worksheet.layOut_of_stepOf hs)).2
  numbers n hn := Reading.lineFeed_not_mem ((Worksheet.legible_of_stepOf hdraft hs).1 n hn).1.2

/-- The lines need not be counted again, for the front of the text adds none. -/
lemma renumber (h : s.Counted) {m : Renumbering} (hm : m.Unbroken) : (s.renumber m).Counted := by
  have hnumbers : ∀ n ∈ (s.renumber m).numbers, '\n' ∉ n.toList := by
    rw [s.numbers_renumber]
    exact List.forall_mem_map.2 fun n hn => hm.not_mem_apply (h.numbers n hn)
  -- the stored number is the old one; both texts have the lines of what is behind their numbers
  refine ⟨h.rendered.renumber m, ?_, hnumbers⟩
  calc (s.renumber m).lineCount = s.lineCount := s.lineCount_renumber m
    _ = Text.lineCount s.text := h.lineCount
    _ = Text.lineCount (statementText (s.ref?.getD "") s.formula?) :=
        h.rendered.lineCount_text h.numbers
    _ = Text.lineCount (s.renumber m).text := by
        rw [(h.rendered.renumber m).lineCount_text hnumbers, s.ref?_renumber, s.formula?_renumber]

lemma layOut (h : s.Counted) : s.layOut.Counted where
  rendered := s.rendered_layOut
  lineCount := by cases s <;> rfl
  numbers := by
    rw [s.numbers_layOut]
    exact h.numbers

end Counted

end ProofStep

/-! ### Edited worksheets -/

namespace Worksheet.Edited

variable {db : Database} {kind : Renumbering → Prop} {sheet : Worksheet}

lemma coherent (h : Edited db kind sheet) : ∀ s ∈ sheet.document.steps, s.Coherent :=
  h.forall_steps (fun _ _ _ hdraft _ hs => .of_stepOf hdraft hs) (fun m _ _ hs => hs.renumber m)
    fun _ hs => hs.layOut

lemma counted (h : Edited db kind sheet) (hkind : ∀ m, kind m → m.Unbroken) :
    ∀ s ∈ sheet.document.steps, s.Counted :=
  h.forall_steps (fun _ _ _ hdraft _ hs => .of_stepOf hdraft hs)
    (fun m hm _ hs => hs.renumber (hkind m hm)) fun _ hs => hs.layOut

/-- **Nothing drifts.** However a worksheet has been renumbered and laid out since it was loaded,
the text of every step is what its fields are written as, so that another header in front of it is
as good as writing it anew and its formula is still there; printed in full and without colours, the
worksheet is its header line, those texts and the footer. If no new number had a line feed in it,
the lines of every step are those of its text as well. -/
theorem coherent_printed_counted (h : Edited db kind sheet) :
    (∀ s ∈ sheet.document.steps, s.text = statementText s.header s.formula? ∧
      (∀ header, Text.replaceFront s.text s.header header = statementText header s.formula?) ∧
        ∀ f ∈ s.formula?, s.text = s.header ++ " " ++ f.toText) ∧
    sheet.print false .full =
      "\n".intercalate ([sheet.headerLine] ++ sheet.document.texts ++ [footer]) ∧
    ((∀ m, kind m → m.Unbroken) →
      ∀ s ∈ sheet.document.steps, s.lineCount = Text.lineCount s.text) := by
  refine ⟨fun s hs => ?_, ?_, fun hkind s hs => (h.counted hkind s hs).lineCount⟩
  · have hcoherent := h.coherent s hs
    refine ⟨hcoherent.rendered, fun header => ?_, fun f hf => hcoherent.text_eq hf⟩
    rw [hcoherent.rendered, replaceFront_statementText]
  · have htexts : sheet.document.steps.map (·.printed false .full) = sheet.document.texts :=
      List.map_congr_left fun s hs => (h.coherent s hs).printed_eq
    rw [print, printedLines, htexts]

/-- Two numbers are exchanged and the worksheet laid out. With a line feed for a number the
worksheet is printed from its texts all the same, but the lines of its steps are not counted any
more. -/
theorem coherent_printed_counted_exchanged :
    ∃ (db : Database) (sheet broken : Worksheet),
      (Edited db Renumbering.Unbroken sheet ∧ sheet.document.texts = ["h2::b x", "1:2: y"] ∧
        sheet.print false .full =
          "$( <MM> <PROOF_ASST> THEOREM=a\nh2::b x\n1:2: y\n$)" ∧
        ∀ s ∈ sheet.document.steps, s.lineCount = Text.lineCount s.text) ∧
      (Edited db (fun _ => True) broken ∧ broken.document.texts = ["h\n::b x", "2:\n: y"] ∧
        broken.print false .full =
          "$( <MM> <PROOF_ASST> THEOREM=a\nh\n::b x\n2:\n: y\n$)" ∧
        ∀ s ∈ broken.document.steps, s.lineCount ≠ Text.lineCount s.text) := by
  have hload : Worksheet.load ⟨[], []⟩ "$( <MM> <PROOF_ASST> THEOREM=a\nh1::b x\n2:1: y\n$)" =
      .ok ⟨.fresh "a", none, ⟨[
        .hypothesis ⟨"1", "b", ⟨["x"]⟩, .flat ParseTree.wff ⟨["x"]⟩, none, "h1::b x", 1⟩,
        .derivation ⟨"2", ["1"], none, some ⟨["y"]⟩, "2:1: y", 1⟩]⟩⟩ :=
    Except.eq_ok_of_toOption (by decide +kernel)
  have hunbroken : Renumbering.Unbroken ⟨[("1", "2"), ("2", "1")]⟩ :=
    Renumbering.unbroken_of_pairs (by decide)
  have hsheet := Edited.layOut (.renumber (.load hload) hunbroken)
  have hbroken : Edited ⟨[], []⟩ (fun _ => True) _ :=
    .renumber (.load hload) (m := ⟨[("1", "\n")]⟩) trivial
  obtain ⟨-, hprint, hcount⟩ := coherent_printed_counted hsheet
  obtain ⟨-, hprint', -⟩ := coherent_printed_counted hbroken
  refine ⟨_, _, _, ⟨hsheet, by decide +kernel, hprint.trans (by decide +kernel),
    hcount fun _ hm => hm⟩, hbroken, by decide +kernel, hprint'.trans (by decide +kernel), ?_⟩
  decide +kernel

/-- **Renumberings compose and can be undone**: one after the other they are a single one, and if
the first keeps the numbers in the document apart, the way back for those numbers restores the
worksheet, with every text and number of lines as it was. -/
theorem renumber_andThen_back (h : Edited db kind sheet) (m m' : Renumbering) :
    (sheet.renumber m).renumber m' = sheet.renumber (m.andThen m') ∧
    (Set.InjOn m.apply {n | n ∈ sheet.document.numbers} →
      (sheet.renumber m).renumber (m.back sheet.document.numbers) = sheet) := by
  have hrendered : sheet.document.Rendered := fun s hs => (h.coherent s hs).rendered
  refine ⟨?_, fun hinj => ?_⟩
  · rw [Worksheet.renumber, Worksheet.renumber, Worksheet.renumber,
      Document.renumber_renumber hrendered]
  · rw [Worksheet.renumber, Worksheet.renumber, Document.renumber_back hrendered hinj]

/-- The first renumbering exchanges two numbers, one of which two steps share, and the second one
takes a number apart that the first one made; the way back restores the texts. -/
theorem renumber_andThen_back_exchanged :
    ∃ (db : Database) (sheet : Worksheet) (m m' : Renumbering),
      Edited db (fun _ => True) sheet ∧ Set.InjOn m.apply {n | n ∈ sheet.document.numbers} ∧
      sheet.document.texts = ["h1::b x", "2:1,9: y", "2:2: z"] ∧
      (sheet.renumber m).document.texts = ["h2::b x", "1:2,9: y", "1:1: z"] ∧
      ((sheet.renumber m).renumber m').document.texts = ["h2::b x", ":2,9: y", ":: z"] ∧
      (sheet.renumber m).renumber m' = sheet.renumber (m.andThen m') ∧
      (sheet.renumber m).renumber (m.back sheet.document.numbers) = sheet := by
  have hload : Worksheet.load ⟨[], []⟩
      "$( <MM> <PROOF_ASST> THEOREM=a\nh1::b x\n2:1,9: y\n2:2: z\n$)" =
      .ok ⟨.fresh "a", none, ⟨[
        .hypothesis ⟨"1", "b", ⟨["x"]⟩, .flat ParseTree.wff ⟨["x"]⟩, none, "h1::b x", 1⟩,
        .derivation ⟨"2", ["1", "9"], none, some ⟨["y"]⟩, "2:1,9: y", 1⟩,
        .derivation ⟨"2", ["2"], none, some ⟨["z"]⟩, "2:2: z", 1⟩]⟩⟩ :=
    Except.eq_ok_of_toOption (by decide +kernel)
  have hnumbers : ∀ k ∈ ["1", "2", "1", "9", "2", "2"], ∀ n ∈ ["1", "2", "1", "9", "2", "2"],
      Renumbering.apply ⟨[("1", "2"), ("2", "1")]⟩ k =
        Renumbering.apply ⟨[("1", "2"), ("2", "1")]⟩ n → k = n := by decide
  have hsheet : Edited ⟨[], []⟩ (fun _ => True) _ := .load hload
  have hinj : Set.InjOn (Renumbering.apply ⟨[("1", "2"), ("2", "1")]⟩) _ :=
    fun k hk n hn => hnumbers k hk n hn
  obtain ⟨hboth, hback⟩ := renumber_andThen_back hsheet ⟨[("1", "2"), ("2", "1")]⟩ ⟨[("1", "")]⟩
  exact ⟨_, _, _, _, hsheet, hinj, rfl, by decide +kernel, by decide +kernel, hboth, hback hinj⟩

end Worksheet.Edited

end ProofSheet
