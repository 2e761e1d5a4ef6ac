import ProofSheet.Proofs.Reading.Blank
import ProofSheet.Proofs.Reading.Statement
import ProofSheet.Worksheet.Basic

/-!
Whole worksheets, read from their texts.

* `WorksheetDraft.Legible`, `legible_of_ofText?`: the drafts that a text can hold; every draft that
  is read is one of them;
* `exists_headerLine`: the two labels of a header line are read back exactly when the line does
  not end in a carriage return;
* `exists_many_nextStatement`: legible drafts are read from their lines, if none of the lines ends
  in a carriage return;
* `exists_worksheet_sheetText`, `of_worksheet_sheetText`: both together, forwards and backwards.
-/

namespace ProofSheet

open Reading

/-- A text can hold the draft of a worksheet. -/
structure WorksheetDraft.Legible (draft : WorksheetDraft) : Prop where
  theoremLabel : IsWord? draft.theoremLabel
  locAfter : IsWord? draft.locAfter
  steps : ∀ d ∈ draft.steps, d.Legible

namespace Reading

/-! ### Every draft that is read is legible -/

lemma fieldValue_eq_iff {s rest : List Char} {v : String} :
    fieldValue s = (v, rest) ↔
      s = v.toList ++ rest ∧ Blankless v.toList ∧ ¬ BreaksInto v.toList rest ∧
        (rest = [] ∨ atBlank rest = true) := by
  have h : takeUntil atBlank s = v.toList ∧ dropUntil atBlank s = rest ↔
      s = v.toList ++ rest ∧ Passes atBlank v.toList rest ∧ (rest = [] ∨ atBlank rest = true) :=
    takeUntil_eq_iff
  rw [passes_atBlank_iff, and_assoc] at h
  rw [← h, fieldValue, Prod.mk.injEq, ← String.toList_inj, String.toList_ofList]

lemma blankless_of_nextField {s rest : List Char} {field : HeaderField}
    (h : nextField s = some (field, rest)) : Blankless field.value.toList := by
  obtain ⟨t, -, hvalue⟩ := nextField_eq_some_iff.1 h
  exact (fieldValue_eq_iff.1 hvalue).2.1

lemma isWord?_written {v : String} (hv : Blankless v.toList) : IsWord? (written v) := by
  intro w hw
  rw [written] at hw
  split at hw
  · cases hw
  next hne =>
    cases hw
    exact ⟨hne, hv⟩

lemma legible_withField {draft : WorksheetDraft} (hd : draft.Legible) {field : HeaderField}
    (hf : Blankless field.value.toList) : (withField draft field).Legible := by
  obtain ⟨key, value⟩ := field
  cases key with
  | theoremLabel => exact ⟨isWord?_written hf, hd.locAfter, hd.steps⟩
  | locAfter => exact ⟨hd.theoremLabel, isWord?_written hf, hd.steps⟩

lemma legible_foldl {fields : List HeaderField} (hf : ∀ f ∈ fields, Blankless f.value.toList)
    {draft : WorksheetDraft} (hd : draft.Legible) : (fields.foldl withField draft).Legible := by
  induction fields generalizing draft with
  | nil => exact hd
  | cons field fields ih =>
      obtain ⟨hfield, hf⟩ := List.forall_mem_cons.1 hf
      exact ih hf (legible_withField hd hfield)

/-- Behind the empty lines there is a statement. -/
lemma statement_of_nextStatement {size : Nat} {s rest : List Char} {read : Option StepDraft}
    (h : nextStatement size s = some (read, rest)) :
    ∃ t, statement size (skipEmptyLines s) = some (read, t) := by
  obtain ⟨⟨read', t⟩, hstatement, h⟩ := Option.bind_eq_some_iff.1 h
  obtain ⟨u, -, h⟩ := Option.bind_eq_some_iff.1 h
  cases h
  exact ⟨t, hstatement⟩

lemma legible_of_nextStatement {size : Nat} {s rest : List Char} {read : Option StepDraft}
    (h : nextStatement size s = some (read, rest)) : ∀ draft ∈ read, draft.Legible := by
  obtain ⟨t, hstatement⟩ := statement_of_nextStatement h
  rintro draft rfl
  exact legible_of_statement hstatement

/-- **Every worksheet that is read is legible.** -/
lemma legible_of_ofText? {text : String} {draft : WorksheetDraft}
    (h : WorksheetDraft.ofText? text = some draft) : draft.Legible := by
  rw [WorksheetDraft.ofText?, worksheet] at h
  obtain ⟨⟨fields, s⟩, hheader, h⟩ := Option.bind_eq_some_iff.1 h
  obtain ⟨t, -, h⟩ := Option.bind_eq_some_iff.1 h
  obtain ⟨u, -, h⟩ := Option.bind_eq_some_iff.1 h
  split at h
  · cases h
    refine legible_foldl ?_ ⟨by simp [IsWord?], by simp [IsWord?], fun d hd => ?_⟩
    · simp only [headerLine, bind, Option.bind_eq_some_iff] at hheader
      obtain ⟨_, -, _, -, _, -, _, -, s, -, hfields⟩ := hheader
      have hfields : (many nextField advances_nextField s).1 = fields :=
        congrArg Prod.fst (Option.some.inj hfields)
      rw [← hfields]
      exact forall_mem_many (fun s f rest hf => blankless_of_nextField hf) s
    · obtain ⟨read, hmem, hread⟩ := List.mem_filterMap.1 hd
      exact forall_mem_many (P := fun read => ∀ d ∈ read, StepDraft.Legible d)
        (fun s a rest h => legible_of_nextStatement h) _ read hmem d hread
  · cases h

/-! ### The header line -/

/-- The header line of a worksheet, by the labels in it. -/
def headerText (label : String) (locAfter : Option String) : String :=
  Worksheet.headerMark ++ " THEOREM=" ++ label ++
    match locAfter with
    | some label => " LOC_AFTER=" ++ label
    | none => ""

/-- The last value of a line is read back exactly when it does not end in a carriage return. -/
lemma fieldValue_line {v : String} (hv : Blankless v.toList) (rest : List Char) :
    ((fieldValue (v.toList ++ '\n' :: rest)).1 = v ↔ ¬ BreaksInto v.toList ('\n' :: rest)) ∧
      ((fieldValue (v.toList ++ '\n' :: rest)).1 = v →
        (fieldValue (v.toList ++ '\n' :: rest)).2 = '\n' :: rest) ∧
      atSpace (fieldValue (v.toList ++ '\n' :: rest)).2 = false := by
  generalize hread : fieldValue (v.toList ++ '\n' :: rest) = read
  obtain ⟨v', t⟩ := read
  obtain ⟨heq, hv', hbreaks, -⟩ := fieldValue_eq_iff.1 hread
  have htail (h : v' = v) : t = '\n' :: rest := (List.append_cancel_left (h ▸ heq)).symm
  refine ⟨⟨?_, fun h => ?_⟩, htail, ?_⟩
  · rintro rfl
    exact htail rfl ▸ hbreaks
  · have hback := fieldValue_eq_iff.2 ⟨rfl, hv, h, .inr rfl⟩
    exact (Prod.mk.inj (hread.symm.trans hback)).1
  · -- the value ends inside the line, at a character of it or at the line feed
    obtain ⟨w, hw, ht⟩ | ⟨w, hw, ht⟩ := List.append_eq_append_iff.1 heq
    · cases w with
      | nil =>
          rw [List.nil_append] at ht
          rw [← ht]
          rfl
      | cons c w =>
          have hc : '\n' ∈ v'.toList := by
            rw [hw, ← (List.cons.inj ht).1]
            simp
          exact absurd rfl (hv' _ hc).2
    · rw [ht]
      cases w with
      | nil => rfl
      | cons c w => exact (hv c (by rw [hw]; simp)).1

/-- A field is read from behind its spaces. -/
lemma nextField_append {v : List Char} (hv : Spaces v) (hne : v ≠ []) (key : HeaderKey)
    (s : List Char) :
    nextField (v ++ (key.mark.toList ++ s)) =
      some (⟨key, (fieldValue s).1⟩, (fieldValue s).2) := by
  have hspace : spaces? (v ++ (key.mark.toList ++ s)) = some (key.mark.toList ++ s) := by
    rw [spaces?_append hv hne]
    cases key <;> rfl
  exact nextField_eq_some_iff.2 ⟨s, hspace, rfl⟩

lemma spaces_space : Spaces [' '] := by decide

lemma nextField_eq_none {s : List Char} (h : atSpace s = false) : nextField s = none := by
  rw [nextField, spaces?, h]
  rfl

/-- The marks at the front of the header line are read, and then its fields. -/
lemma headerLine_append {v w : List Char} (hv : Spaces v) (hvne : v ≠ []) (hw : Spaces w)
    (hwne : w ≠ []) (s : List Char) :
    headerLine ("$(".toList ++ (v ++ ("<MM>".toList ++ (w ++ ("<PROOF_ASST>".toList ++ s))))) =
      some (many nextField advances_nextField s) := by
  have hfirst (u : List Char) : spaces? (v ++ ("<MM>".toList ++ u)) = some ("<MM>".toList ++ u) :=
    spaces?_append hv hvne _
  have hsecond (u : List Char) : spaces? (w ++ ("<PROOF_ASST>".toList ++ u)) =
      some ("<PROOF_ASST>".toList ++ u) := spaces?_append hw hwne _
  simp only [headerLine, hfirst, hsecond, expect_append, bind, Option.bind_some, pure]

lemma headerLine_headerMark (s : List Char) :
    headerLine (Worksheet.headerMark.toList ++ s) =
      some (many nextField advances_nextField s) :=
  headerLine_append spaces_space (List.cons_ne_nil _ _) spaces_space (List.cons_ne_nil _ _) s

lemma written_eq_some_iff {v w : String} (hw : w ≠ "") : written v = some w ↔ v = w := by
  rw [written]
  split
  next h =>
    subst h
    exact ⟨fun h => (by cases h), fun h => absurd h.symm hw⟩
  next => exact Option.some_inj

/-- A field behind one space, as it stands in a header line. -/
def HeaderField.spacedText (field : HeaderField) : List Char :=
  [' '] ++ (field.key.mark.toList ++ field.value.toList)

lemma nextField_spacedText (field : HeaderField) (rest : List Char) :
    nextField (field.spacedText ++ rest) =
      some (⟨field.key, (fieldValue (field.value.toList ++ rest)).1⟩,
        (fieldValue (field.value.toList ++ rest)).2) := by
  rw [HeaderField.spacedText, List.append_assoc, List.append_assoc]
  exact nextField_append spaces_space (List.cons_ne_nil _ _) field.key _

lemma breaksInto_spacedText {field : HeaderField} (h : IsWord field.value)
    (front rest : List Char) :
    BreaksInto (front ++ field.spacedText) rest ↔ BreaksInto field.value.toList rest := by
  rw [HeaderField.spacedText, ← List.append_assoc, ← List.append_assoc,
    breaksInto_append h.toList_ne_nil]

lemma toList_headerText_none (label : String) :
    (headerText label none).toList =
      Worksheet.headerMark.toList ++ HeaderField.spacedText ⟨.theoremLabel, label⟩ := by
  simp [headerText, HeaderField.spacedText, HeaderKey.mark]

lemma toList_headerText_some (label loc : String) :
    (headerText label (some loc)).toList = Worksheet.headerMark.toList ++
      (HeaderField.spacedText ⟨.theoremLabel, label⟩ ++
        HeaderField.spacedText ⟨.locAfter, loc⟩) := by
  simp [headerText, HeaderField.spacedText, HeaderKey.mark]

/-- A header line ends with the last label in it. -/
lemma breaksInto_headerText {label : String} {locAfter : Option String} (hlabel : IsWord label)
    (hloc : IsWord? locAfter) (rest : List Char) :
    BreaksInto (headerText label locAfter).toList rest ↔
      BreaksInto (locAfter.getD label).toList rest := by
  cases locAfter with
  | none =>
      rw [toList_headerText_none, Option.getD_none]
      exact breaksInto_spacedText hlabel _ rest
  | some loc =>
      rw [toList_headerText_some, ← List.append_assoc, Option.getD_some]
      exact breaksInto_spacedText (hloc loc rfl) _ rest

lemma headerLine_headerText_none {label : String} (hlabel : IsWord label) (rest : List Char) :
    headerLine ((headerText label none).toList ++ '\n' :: rest) =
      some ([⟨.theoremLabel, (fieldValue (label.toList ++ '\n' :: rest)).1⟩],
        (fieldValue (label.toList ++ '\n' :: rest)).2) := by
  obtain ⟨-, -, hspace⟩ := fieldValue_line hlabel.2 rest
  rw [toList_headerText_none, List.append_assoc, headerLine_headerMark,
    many_of_some (nextField_spacedText _ _), many_of_none (nextField_eq_none hspace)]

lemma headerLine_headerText_some {label loc : String} (hlabel : IsWord label) (hloc : IsWord loc)
    (rest : List Char) :
    headerLine ((headerText label (some loc)).toList ++ '\n' :: rest) =
      some ([⟨.theoremLabel, label⟩, ⟨.locAfter, (fieldValue (loc.toList ++ '\n' :: rest)).1⟩],
        (fieldValue (loc.toList ++ '\n' :: rest)).2) := by
  obtain ⟨-, -, hspace⟩ := fieldValue_line hloc.2 rest
  have hfirst : fieldValue (label.toList ++ (HeaderField.spacedText ⟨.locAfter, loc⟩ ++
      '\n' :: rest)) = (label, HeaderField.spacedText ⟨.locAfter, loc⟩ ++ '\n' :: rest) :=
    fieldValue_eq_iff.2 ⟨rfl, hlabel.2, not_breaksInto_of_head (by decide), .inr rfl⟩
  rw [toList_headerText_some, List.append_assoc, headerLine_headerMark, List.append_assoc,
    many_of_some (nextField_spacedText _ _), hfirst, many_of_some (nextField_spacedText _ _),
    many_of_none (nextField_eq_none hspace)]

/-- **The labels of a header line** are read back exactly when the line does not end in a carriage
return, and then reading goes on at the end of the line. -/
lemma exists_headerLine {label : String} {locAfter : Option String} (hlabel : IsWord label)
    (hloc : IsWord? locAfter) (rest : List Char) (steps : List StepDraft) :
    ∃ fields t, headerLine ((headerText label locAfter).toList ++ '\n' :: rest) =
        some (fields, t) ∧
      (fields.foldl withField ⟨none, none, steps⟩ = ⟨some label, locAfter, steps⟩ ↔
        ¬ BreaksInto (headerText label locAfter).toList ('\n' :: rest)) ∧
      (¬ BreaksInto (headerText label locAfter).toList ('\n' :: rest) → t = '\n' :: rest) := by
  rw [breaksInto_headerText hlabel hloc]
  cases locAfter with
  | none =>
      obtain ⟨hiff, htail, -⟩ := fieldValue_line hlabel.2 rest
      refine ⟨_, _, headerLine_headerText_none hlabel rest, ?_, fun h => htail (hiff.2 h)⟩
      rw [Option.getD_none, ← hiff]
      simp [withField, written_eq_some_iff hlabel.1]
  | some loc =>
      have hloc : IsWord loc := hloc loc rfl
      obtain ⟨hiff, htail, -⟩ := fieldValue_line hloc.2 rest
      refine ⟨_, _, headerLine_headerText_some hlabel hloc rest, ?_, fun h => htail (hiff.2 h)⟩
      rw [Option.getD_some, ← hiff]
      simp [withField, written_eq_some_iff hlabel.1, written_eq_some_iff hloc.1]

/-! ### The lines of the statements -/

/-- Drafts, each on a line of its own. -/
def linesOf (steps : List StepDraft) : List Char :=
  steps.flatMap fun d => d.text.toList ++ ['\n']

/-- What stands behind the last statement of a worksheet that is written. -/
def footing : List Char :=
  '\n' :: (Worksheet.footer.toList ++ ['\n'])

lemma linesOf_cons (d : StepDraft) (steps : List StepDraft) :
    linesOf (d :: steps) ++ footing = d.text.toList ++ '\n' :: (linesOf steps ++ footing) := by
  simp [linesOf]

lemma skipEmptyLines_eq_self {s : List Char} (h : atBlank s = false) : skipEmptyLines s = s := by
  rw [skipEmptyLines, skipEmptyFrom.eq_def]
  split
  · rfl
  · cases h
  · cases h
  next c rest _ _ =>
    rw [atBlank_cons_eq_false_iff] at h
    rw [h.1.1]
    rfl

lemma atBlank_word {w : String} (hw : IsWord w) {rest : List Char}
    (h : ¬ BreaksInto w.toList rest) : atBlank (w.toList ++ rest) = false := by
  have hpasses := passes_atBlank_iff.2 ⟨hw.2, h⟩
  obtain ⟨c, more, hc⟩ := hw.exists_cons
  rw [hc] at hpasses ⊢
  exact hpasses.1

/-- A statement begins with its first character. -/
lemma atBlank_text {draft : StepDraft} (hd : draft.Legible) (rest : List Char) :
    atBlank (draft.text.toList ++ rest) = false := by
  cases draft with
  | hypothesis draft =>
      rw [StepDraft.text, HypothesisDraft.text, toList_statementText, toList_ofHypothesis]
      rfl
  | derivation draft =>
      rw [StepDraft.text, DerivationDraft.text, toList_statementText, toList_ofDerivation,
        List.append_assoc, List.append_assoc]
      exact atBlank_word hd.step.1 (not_breaksInto_of_head (by decide))

lemma atSpace_eq_false {s : List Char} (h : atBlank s = false) : atSpace s = false :=
  (Bool.or_eq_false_iff.1 h).1

/-- No line begins with a space. -/
lemma atSpace_linesOf {steps : List StepDraft} (hd : ∀ d ∈ steps, d.Legible) :
    atSpace (linesOf steps ++ footing) = false := by
  cases steps with
  | nil => rfl
  | cons d steps =>
      rw [linesOf_cons]
      exact atSpace_eq_false (atBlank_text (hd d List.mem_cons_self) _)

/-- Reading a statement from its line. -/
lemma nextStatement_text {d : StepDraft} (hd : d.Legible) {rest : List Char}
    (hrest : atSpace rest = false) (hend : ¬ BreaksInto d.text.toList ('\n' :: rest))
    (size : Nat) :
    ∃ caret, nextStatement size (d.text.toList ++ '\n' :: rest) =
      some (some (d.placed caret), rest) := by
  refine ⟨caretOf size (d.text.toList ++ '\n' :: rest) ('\n' :: rest), ?_⟩
  have hbreak : afterBreak? (skipSpaces ('\n' :: rest)) = some rest := rfl
  rw [nextStatement, skipEmptyLines_eq_self (atBlank_text hd _)]
  simp only [statement_text hrest size hd hend, bind, Option.bind_some, hbreak, pure]

/-- What is read from the line of a draft is the statement at the front of it. -/
lemma statement_of_nextStatement_text {d : StepDraft} (hd : d.Legible) {rest t : List Char}
    {size : Nat} {read : Option StepDraft}
    (h : nextStatement size (d.text.toList ++ '\n' :: rest) = some (read, t)) :
    ∃ u, statement size (d.text.toList ++ '\n' :: rest) = some (read, u) := by
  have hstatement := statement_of_nextStatement h
  rw [skipEmptyLines_eq_self (atBlank_text hd _)] at hstatement
  exact hstatement

/-- A line that is read back did not end in a carriage return. -/
lemma not_breaksInto_of_nextStatement {d read : StepDraft} (hd : d.Legible) {rest t : List Char}
    (hrest : atSpace rest = false) {size : Nat}
    (h : nextStatement size (d.text.toList ++ '\n' :: rest) = some (some read, t))
    (hsame : read.placed {} = d.placed {}) : ¬ BreaksInto d.text.toList ('\n' :: rest) := by
  obtain ⟨u, hread⟩ := statement_of_nextStatement_text hd h
  exact not_breaksInto_of_statement hrest size hd hread hsame

/-- No line is read as a comment. -/
lemma exists_of_nextStatement {d : StepDraft} (hd : d.Legible) {rest t : List Char} {size : Nat}
    {read : Option StepDraft}
    (h : nextStatement size (d.text.toList ++ '\n' :: rest) = some (read, t)) :
    ∃ draft, read = some draft := by
  obtain ⟨u, hread⟩ := statement_of_nextStatement_text hd h
  obtain ⟨hcomment, -⟩ | ⟨-, draft, -, rfl⟩ | ⟨-, -, draft, -, rfl⟩ := statement_cases hread
  · rw [comment_text hd] at hcomment
    cases hcomment
  · exact ⟨.hypothesis draft, rfl⟩
  · exact ⟨.derivation draft, rfl⟩

/-- In front of a formula the header of a hypothesis step is read as it is written. -/
lemma fields_of_nextStatement {draft read : HypothesisDraft} (hd : draft.Legible)
    (hf : draft.formula ≠ none) {rest t : List Char} (hrest : atSpace rest = false) {size : Nat}
    (h : nextStatement size ((StepDraft.hypothesis draft).text.toList ++ '\n' :: rest) =
      some (some (.hypothesis read), t)) : read.step = draft.step ∧ read.ref = draft.ref := by
  have hlegible : (StepDraft.hypothesis draft).Legible := hd
  obtain ⟨u, hread⟩ := statement_of_nextStatement_text hlegible h
  obtain ⟨-, heq⟩ | ⟨-, found, hfound, heq⟩ | ⟨-, -, found, -, heq⟩ := statement_cases hread
  · cases heq
  · cases heq
    exact fields_of_hypothesisStatement hrest size hd hf hfound
  · cases heq

/-- Nothing is read from the footing of a worksheet but the footer. -/
lemma nextStatement_footing (size : Nat) : nextStatement size footing = none := rfl

/-- Legible drafts are read from their lines up to their places, if no line ends in a carriage
return. -/
lemma exists_many_nextStatement {steps : List StepDraft} (hd : ∀ d ∈ steps, d.Legible)
    (hend : ∀ d ∈ steps, d.text.toList.getLast? ≠ some '\r') (size : Nat) :
    ∃ reads : List StepDraft, reads.map (StepDraft.placed {}) = steps.map (StepDraft.placed {}) ∧
      many (nextStatement size) (advances_nextStatement size) (linesOf steps ++ footing) =
        (reads.map some, footing) := by
  induction steps with
  | nil => exact ⟨[], rfl, many_of_none (nextStatement_footing size)⟩
  | cons d steps ih =>
      obtain ⟨hfirst, hd⟩ := List.forall_mem_cons.1 hd
      obtain ⟨hfirstEnd, hend⟩ := List.forall_mem_cons.1 hend
      obtain ⟨reads, hreads, hmany⟩ := ih hd hend
      obtain ⟨caret, hread⟩ := nextStatement_text hfirst (atSpace_linesOf hd)
        (fun h => hfirstEnd h.1) size
      refine ⟨d.placed caret :: reads, ?_, ?_⟩
      · rw [List.map_cons, List.map_cons, hreads]
        cases d <;> rfl
      · rw [linesOf_cons, many_of_some hread, hmany]
        rfl

/-! ### The whole text -/

/-- A worksheet as it is written: header line, empty line, the statements, empty line, footer. -/
def sheetText (label : String) (locAfter : Option String) (steps : List StepDraft) : List Char :=
  (headerText label locAfter).toList ++ '\n' :: '\n' :: (linesOf steps ++ footing)

/-- Empty lines in front of statements make no difference. -/
lemma many_nextStatement_congr {s t : List Char} (h : skipEmptyLines s = skipEmptyLines t)
    (size : Nat) :
    (many (nextStatement size) (advances_nextStatement size) s).1 =
        (many (nextStatement size) (advances_nextStatement size) t).1 ∧
      skipEmptyLines (many (nextStatement size) (advances_nextStatement size) s).2 =
        skipEmptyLines (many (nextStatement size) (advances_nextStatement size) t).2 := by
  have hsame : nextStatement size s = nextStatement size t := by
    rw [nextStatement, nextStatement, h]
  cases hread : nextStatement size t with
  | none =>
      rw [many_of_none hread, many_of_none (hsame.trans hread)]
      exact ⟨rfl, h⟩
  | some read =>
      rw [many_of_some hread, many_of_some (hsame.trans hread)]
      exact ⟨rfl, rfl⟩

lemma skipEmptyLines_headerText (label : String) (locAfter : Option String) (rest : List Char) :
    skipEmptyLines ((headerText label locAfter).toList ++ rest) =
      (headerText label locAfter).toList ++ rest := by
  refine skipEmptyLines_eq_self ?_
  simp [headerText, Worksheet.headerMark, atBlank, atSpace, atBreak, afterBreak?, isSpace]

lemma foldl_withField_steps (fields : List HeaderField) (draft : WorksheetDraft) :
    (fields.foldl withField draft).steps = draft.steps := by
  induction fields generalizing draft with
  | nil => rfl
  | cons field fields ih =>
      rw [List.foldl_cons, ih]
      obtain ⟨key, value⟩ := field
      cases key <;> rfl

section Whole

variable {label : String} {locAfter : Option String} {steps : List StepDraft} {size : Nat}

/-- **A legible worksheet is read from its text** up to the places of its statements, if no line
ends in a carriage return. -/
lemma exists_worksheet_sheetText (hlabel : IsWord label) (hloc : IsWord? locAfter)
    (hd : ∀ d ∈ steps, d.Legible)
    (hheader : (headerText label locAfter).toList.getLast? ≠ some '\r')
    (hend : ∀ d ∈ steps, d.text.toList.getLast? ≠ some '\r') (size : Nat) :
    ∃ reads : List StepDraft, reads.map (StepDraft.placed {}) = steps.map (StepDraft.placed {}) ∧
      worksheet size (sheetText label locAfter steps) = some ⟨some label, locAfter, reads⟩ := by
  have hbreaks : ¬ BreaksInto (headerText label locAfter).toList
      ('\n' :: '\n' :: (linesOf steps ++ footing)) := fun h => hheader h.1
  obtain ⟨reads, hreads, hmany⟩ := exists_many_nextStatement hd hend size
  obtain ⟨fields, t, hread, hfields, htail⟩ := exists_headerLine hlabel hloc
    ('\n' :: (linesOf steps ++ footing)) reads
  obtain rfl := htail hbreaks
  have hempty : skipEmptyLines ('\n' :: (linesOf steps ++ footing)) =
      skipEmptyLines (linesOf steps ++ footing) := rfl
  obtain ⟨hstatements, hrest⟩ := many_nextStatement_congr hempty size
  rw [hmany] at hstatements hrest
  refine ⟨reads, hreads, ?_⟩
  have hbreak : afterBreak? (skipSpaces ('\n' :: '\n' :: (linesOf steps ++ footing))) =
      some ('\n' :: (linesOf steps ++ footing)) := rfl
  have hfooter : expect "$)" (skipEmptyLines footing) = some ['\n'] := rfl
  rw [worksheet, sheetText, skipEmptyLines_headerText, hread]
  simp only [bind, Option.bind_some, hbreak, hrest, hfooter, hstatements, List.filterMap_map]
  have hends : (skipBlanks ['\n']).isEmpty = true := rfl
  rw [if_pos hends]
  simpa [pure] using hfields.2 hbreaks

/-- **What is read from the text of a worksheet**: if it has the labels of the header line, that
line did not end in a carriage return, and the statements are read from theirs. -/
lemma of_worksheet_sheetText (hlabel : IsWord label) (hloc : IsWord? locAfter)
    {reads : List StepDraft}
    (h : worksheet size (sheetText label locAfter steps) = some ⟨some label, locAfter, reads⟩) :
    (headerText label locAfter).toList.getLast? ≠ some '\r' ∧
      (many (nextStatement size) (advances_nextStatement size)
        (linesOf steps ++ footing)).1.filterMap id = reads := by
  obtain ⟨fields, t, hread, hfields, htail⟩ := exists_headerLine hlabel hloc
    ('\n' :: (linesOf steps ++ footing)) reads
  rw [worksheet, sheetText, skipEmptyLines_headerText, hread] at h
  obtain ⟨_, ⟨⟩, h⟩ := Option.bind_eq_some_iff.1 h
  obtain ⟨s, hs, h⟩ := Option.bind_eq_some_iff.1 h
  obtain ⟨u, -, h⟩ := Option.bind_eq_some_iff.1 h
  split at h
  · have h := Option.some.inj h
    have hsteps := foldl_withField_steps fields ⟨none, none,
      (many (nextStatement size) (advances_nextStatement size) s).1.filterMap id⟩
    rw [h] at hsteps
    obtain rfl : reads =
        (many (nextStatement size) (advances_nextStatement size) s).1.filterMap id := hsteps
    have hheader := hfields.1 h
    obtain rfl := htail hheader
    obtain rfl : '\n' :: (linesOf steps ++ footing) = s := Option.some.inj hs
    have hempty : skipEmptyLines ('\n' :: (linesOf steps ++ footing)) =
        skipEmptyLines (linesOf steps ++ footing) := rfl
    rw [(many_nextStatement_congr hempty size).1]
    exact ⟨fun hlast => hheader ⟨hlast, rfl⟩, rfl⟩
  · cases h

end Whole

end Reading

end ProofSheet
