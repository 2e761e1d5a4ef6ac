import ProofSheet.Proofs.Reading.Layout

/-!
The layouts of whole worksheets: empty lines, a header line with its fields in either order,
statements and comments, and a footer.

* `HeaderText`, `BodyText`, `SheetText`: the grammar of layouts, beside the reader;
* `SheetReads`, `reads_bodyText`: **what stands between header line and footer is read from each of
  its layouts**, by induction on the layout. Behind a comment the empty lines that begin with a
  space belong to the comment, so the induction carries a second statement for that place;
* `WorksheetDraft.ofText?_of_sheetText`: the draft of a worksheet is read from each of its layouts,
  up to the places of its statements.
-/

namespace ProofSheet

open Reading

/-! ### Drafts up to places -/

/-- The draft of a worksheet without the places of its statements. -/
def WorksheetDraft.unplaced (draft : WorksheetDraft) : WorksheetDraft :=
  { draft with steps := draft.steps.map (StepDraft.placed {}) }

/-- The fields of the header line. -/
def WorksheetDraft.fields (draft : WorksheetDraft) : List HeaderField :=
  draft.theoremLabel.toList.map (⟨.theoremLabel, ·⟩) ++
    draft.locAfter.toList.map (⟨.locAfter, ·⟩)

/-- The tokens of a worksheet: its labels, and the tokens of its statements. -/
def WorksheetDraft.tokens (draft : WorksheetDraft) : List String :=
  draft.theoremLabel.toList ++ draft.locAfter.toList ++ draft.steps.flatMap StepDraft.tokens

namespace Reading

variable {s t rest b e tail : List Char} {d : StepDraft} {ds : List StepDraft} {size : Nat}
  {fields : List HeaderField}

/-- A field as it is written. -/
def HeaderField.text (field : HeaderField) : String :=
  field.key.mark ++ field.value

/-! ### Layouts -/

/-- Fields with spaces in front of each. -/
inductive FieldsText : List HeaderField → List Char → Prop
  | nil : FieldsText [] []
  | cons {field : HeaderField} {fields : List HeaderField} {s t : List Char} (hs : Spaces s)
      (hne : s ≠ []) (h : FieldsText fields t) :
      FieldsText (field :: fields) (s ++ (field.text.toList ++ t))

/-- The header line, without the spaces at its end. -/
def HeaderText (fields : List HeaderField) (text : List Char) : Prop :=
  ∃ s s' t, (Spaces s ∧ s ≠ []) ∧ (Spaces s' ∧ s' ≠ []) ∧ FieldsText fields t ∧
    text = "$(".toList ++ (s ++ ("<MM>".toList ++ (s' ++ ("<PROOF_ASST>".toList ++ t))))

/-- The statements, each on lines of its own, with comments and empty lines anywhere between
them. -/
inductive BodyText : List StepDraft → List Char → Prop
  | nil : BodyText [] []
  | emptyLine {ds : List StepDraft} {s b t : List Char} (hs : Spaces s) (hb : LineBreak b)
      (h : BodyText ds t) : BodyText ds (s ++ (b ++ t))
  | comment {ds : List StepDraft} {c b t : List Char} (hc : CommentText c) (hb : LineBreak b)
      (h : BodyText ds t) : BodyText ds (c ++ (b ++ t))
  | step {d : StepDraft} {ds : List StepDraft} {c s b t : List Char} (hc : StatementText d c)
      (hs : Spaces s) (hb : LineBreak b) (h : BodyText ds t) :
      BodyText (d :: ds) (c ++ (s ++ (b ++ t)))

/-- A layout of a worksheet. -/
def SheetText (draft : WorksheetDraft) (text : List Char) : Prop :=
  ∃ e fields header s b body blanks, EmptyLines e ∧ fields.Perm draft.fields ∧
    HeaderText fields header ∧ Spaces s ∧ LineBreak b ∧ BodyText draft.steps body ∧
    Blanks blanks ∧ text = e ++ (header ++ (s ++ (b ++ (body ++ ("$)".toList ++ blanks)))))

/-! ### Empty lines and the end of the text -/

/-- The footer is no statement: it has no colon. -/
lemma nextStatement_footer (h : Blanks s) (size : Nat) :
    nextStatement size ("$)".toList ++ s) = none := by
  have hfooter : IsNumber "$)" := by decide
  have hnumber : stepNumber ("$)".toList ++ s) = some ("$)", s) := by
    refine stepNumber_eq_some_iff.2 ⟨rfl, hfooter, not_breaksInto_of_not_mem (by decide) s, ?_⟩
    exact h.eq_nil_or_atBlank.imp_right fun hat => by rw [endsStepNumber, hat]; rfl
  have hcolon : expect ":" s = none := by
    cases h with
    | nil => rfl
    | @space c t hc _ => rcases eq_space_or_tab hc with rfl | rfl <;> rfl
    | lineBreak hb _ => cases hb <;> rfl
  have hstatement : statement size ("$)".toList ++ s) = none := by
    have hderivation : derivationStatement size ("$)".toList ++ s) = none := by
      simp only [derivationStatement, derivationHeader, hnumber, bind, Option.bind_some, hcolon,
        Option.bind_none]
    have hcomment : comment ("$)".toList ++ s) = none := rfl
    have hhyp : hypothesisStatement size ("$)".toList ++ s) = none := rfl
    rw [statement, hcomment, hhyp, hderivation]
    rfl
  have hempty : skipEmptyLines ("$)".toList ++ s) = "$)".toList ++ s := rfl
  rw [nextStatement, hempty, hstatement]
  rfl

/-! ### The header line -/

/-- A field is read from behind its spaces, up to the next blank. -/
lemma nextField_text {field : HeaderField} (hs : Spaces s) (hne : s ≠ [])
    (hv : Blankless field.value.toList) (hreturn : '\r' ∉ field.value.toList)
    (hrest : atBlank rest = true) :
    nextField (s ++ (field.text.toList ++ rest)) = some (field, rest) := by
  have hvalue : fieldValue (field.value.toList ++ rest) = (field.value, rest) :=
    fieldValue_eq_iff.2 ⟨rfl, hv, not_breaksInto_of_not_mem hreturn rest, .inr hrest⟩
  rw [HeaderField.text, String.toList_append, List.append_assoc, nextField_append hs hne, hvalue]

/-- No field is at the end of a line. -/
lemma nextField_lineBreak (hs : Spaces s) (hb : LineBreak b) (t : List Char) :
    nextField (s ++ (b ++ t)) = none := by
  by_cases hne : s = []
  · rw [hne]
    exact nextField_eq_none (atSpace_lineBreak hb t)
  · rw [nextField, spaces?_append hs hne, skipSpaces_eq_self (atSpace_lineBreak hb t)]
    cases hb <;> rfl

lemma many_nextField_fieldsText (h : FieldsText fields s)
    (hv : ∀ field ∈ fields, Blankless field.value.toList ∧ '\r' ∉ field.value.toList)
    (hrest : atBlank rest = true) (hnone : nextField rest = none) :
    many nextField advances_nextField (s ++ rest) = (fields, rest) := by
  induction h with
  | nil => exact many_of_none hnone
  | @cons field fields s t hs hne h ih =>
      obtain ⟨⟨hblank, hreturn⟩, hv⟩ := List.forall_mem_cons.1 hv
      have hat : atBlank (t ++ rest) = true := by
        cases h with
        | nil => exact hrest
        | cons hs hne _ =>
            rw [List.append_assoc]
            exact atBlank_spaces_append hs hne _
      have hread := nextField_text hs hne hblank hreturn hat
      rw [List.append_assoc, List.append_assoc, many_of_some hread, ih hv]

lemma headerLine_headerText (h : HeaderText fields s)
    (hv : ∀ field ∈ fields, Blankless field.value.toList ∧ '\r' ∉ field.value.toList)
    (hrest : atBlank rest = true) (hnone : nextField rest = none) :
    headerLine (s ++ rest) = some (fields, rest) := by
  obtain ⟨s, s', t, ⟨hs, hne⟩, ⟨hs', hne'⟩, hfields, rfl⟩ := h
  simp only [List.append_assoc]
  rw [headerLine_append hs hne hs' hne', many_nextField_fieldsText hfields hv hrest hnone]

/-! ### Statements, comments and empty lines -/

/-- From `s` the drafts are read, up to their places, and behind them comes `tail`. -/
def SheetReads (size : Nat) (ds : List StepDraft) (s tail : List Char) : Prop :=
  ((many (nextStatement size) (advances_nextStatement size) s).1.filterMap id).map
      (StepDraft.placed {}) = ds.map (StepDraft.placed {}) ∧
    skipEmptyLines (many (nextStatement size) (advances_nextStatement size) s).2 = tail

lemma SheetReads.of_skipEmptyLines (h : SheetReads size ds t tail)
    (hst : skipEmptyLines s = skipEmptyLines t) : SheetReads size ds s tail := by
  obtain ⟨hstatements, hrest⟩ := many_nextStatement_congr hst size
  rw [SheetReads, hstatements, hrest]
  exact h

lemma SheetReads.comment (h : SheetReads size ds t tail)
    (hread : nextStatement size s = some (none, t)) : SheetReads size ds s tail := by
  rw [SheetReads, many_of_some hread]
  exact h

lemma SheetReads.step (h : SheetReads size ds t tail) {caret : Caret}
    (hread : nextStatement size s = some (some (d.placed caret), t)) :
    SheetReads size (d :: ds) s tail := by
  rw [SheetReads, many_of_some hread]
  have hplaced : (d.placed caret).placed {} = d.placed {} := by cases d <;> rfl
  exact ⟨congrArg₂ List.cons hplaced h.1, h.2⟩

lemma symbol_eq_none (h : atBlank s = true) : symbol s = none := by
  rw [symbol]
  split
  · rfl
  · exact token_eq_none_iff.2 (.inr h)

/-- A gap behind a statement ends in front of a line break: only spaces of empty lines are in it. -/
lemma atBlank_skipGap_bodyText (h : BodyText ds t) (hd : ∀ d ∈ ds, d.Legible)
    (htail : atSpace tail = false) (hb : LineBreak b) :
    atBlank (skipGap (b ++ (t ++ tail))) = true := by
  have hstop {u : List Char} (hu : atSpace u = false) {b : List Char} (hb : LineBreak b) :
      atBlank (skipGap (b ++ u)) = true := by
    rw [skipGap_lineBreak hb, hu]
    exact atBlank_lineBreak hb u
  induction h generalizing b with
  | nil => exact hstop htail hb
  | @emptyLine ds s b' t hs hb' _ ih =>
      rw [List.append_assoc, List.append_assoc]
      cases s with
      | nil => exact hstop (atSpace_lineBreak hb' _) hb
      | cons c s =>
          have hat : atSpace (c :: s ++ (b' ++ (t ++ tail))) = true := (spaces_cons.1 hs).1
          rw [skipGap_lineBreak hb, if_pos hat, skipGap_spaces hs]
          exact ih hd hb'
  | comment hc hb' _ _ =>
      rw [List.append_assoc]
      exact hstop (atSpace_eq_false (atBlank_commentText hc _)) hb
  | step hc hs hb' _ _ =>
      rw [List.append_assoc]
      exact hstop (atSpace_eq_false (atBlank_statementText (hd _ List.mem_cons_self) hc _)) hb

/-- No symbol follows at the end of a statement. -/
lemma nextSymbol_bodyText (h : BodyText ds t) (hd : ∀ d ∈ ds, d.Legible)
    (htail : atSpace tail = false) (hs : Spaces s) (hb : LineBreak b) :
    nextSymbol (s ++ (b ++ (t ++ tail))) = none := by
  rw [nextSymbol, gap?]
  split
  · rw [skipGap_spaces hs]
    exact symbol_eq_none (atBlank_skipGap_bodyText h hd htail hb)
  · rfl

/-- **What stands between header line and footer is read from each of its layouts.** The second
statement is about the place behind a comment: from there the lines that continue the comment are
skipped first, and with them the empty lines that begin with a space. -/
lemma reads_bodyText (h : BodyText ds t) (hd : ∀ d ∈ ds, d.Legible)
    (hreturn : ∀ d ∈ ds, ∀ w ∈ d.tokens, '\r' ∉ w.toList) (htail : atSpace tail = false)
    (hend : SheetReads size [] tail tail) :
    SheetReads size ds (t ++ tail) tail ∧
      ∀ u, afterBreak? u = some (t ++ tail) →
        ∃ r, afterBreak? (many continuation advances_continuation u).2 = some r ∧
          SheetReads size ds r tail := by
  -- behind a comment a line that begins with no space is read as any other
  have hbehind {ds : List StepDraft} {v : List Char} (hv : atSpace v = false)
      (hreads : SheetReads size ds v tail) (u : List Char) (hu : afterBreak? u = some v) :
      ∃ r, afterBreak? (many continuation advances_continuation u).2 = some r ∧
        SheetReads size ds r tail := by
    have hnone : continuation u = none := by
      simp only [continuation, hu, spaces?, hv, bind, Option.bind_some]
      rfl
    rw [many_of_none hnone]
    exact ⟨v, hu, hreads⟩
  induction h with
  | nil => exact ⟨hend, hbehind htail hend⟩
  | @emptyLine ds s b t hs hb _ ih =>
      obtain ⟨hreads, hcomment⟩ := ih hd hreturn
      rw [List.append_assoc, List.append_assoc]
      have hline := hreads.of_skipEmptyLines (skipEmptyLines_append hs hb (t ++ tail))
      refine ⟨hline, fun u hu => ?_⟩
      by_cases hne : s = []
      · subst hne
        exact hbehind (atSpace_lineBreak hb _) hline u hu
      · obtain ⟨v, hv, hbreak⟩ := exists_continuation hs hne (List.not_mem_nil : '\n' ∉ []) hb hu
        rw [many_of_some hv]
        exact hcomment v hbreak
  | @comment ds c b t hc hb _ ih =>
      obtain ⟨-, hcomment⟩ := ih hd hreturn
      obtain ⟨u, hu, hread⟩ := exists_comment_commentText hc hb (t ++ tail)
      obtain ⟨r, hr, hreads⟩ := hcomment u hu
      have hblank := atBlank_commentText hc (b ++ (t ++ tail))
      have hnext : nextStatement size (c ++ (b ++ (t ++ tail))) = some (none, r) := by
        rw [nextStatement, skipEmptyLines_eq_self hblank, statement, hread]
        simp only [bind, Option.bind_some, skipSpaces_eq_self (atSpace_of_afterBreak? hr), hr, pure]
      rw [List.append_assoc, List.append_assoc]
      exact ⟨hreads.comment hnext, hbehind (atSpace_eq_false hblank) (hreads.comment hnext)⟩
  | @step d ds c s b t hc hs hb h ih =>
      obtain ⟨hfirst, hd⟩ := List.forall_mem_cons.1 hd
      obtain ⟨hfirstReturn, hreturn⟩ := List.forall_mem_cons.1 hreturn
      obtain ⟨hreads, -⟩ := ih hd hreturn
      have hrest := atBlank_spaces hs (atBlank_lineBreak hb (t ++ tail))
      obtain ⟨caret, hread⟩ := statement_statementText hfirst hfirstReturn hc hrest
        (nextSymbol_bodyText h hd htail hs hb) size
      have hblank := atBlank_statementText hfirst hc (s ++ (b ++ (t ++ tail)))
      have hnext : nextStatement size (c ++ (s ++ (b ++ (t ++ tail)))) =
          some (some (d.placed caret), t ++ tail) := by
        rw [nextStatement, skipEmptyLines_eq_self hblank]
        simp only [hread, bind, Option.bind_some, afterBreak?_skipSpaces hs hb, pure]
      simp only [List.append_assoc]
      exact ⟨hreads.step hnext, hbehind (atSpace_eq_false hblank) (hreads.step hnext)⟩

/-! ### The whole text -/

/-- The values of the fields are labels of the worksheet. -/
lemma isWord_of_mem_fields {draft : WorksheetDraft} (hd : draft.Legible) {field : HeaderField}
    (h : field ∈ draft.fields) : IsWord field.value ∧ field.value ∈ draft.tokens := by
  simp only [WorksheetDraft.fields, List.mem_append, List.mem_map, Option.mem_toList] at h
  rw [WorksheetDraft.tokens]
  obtain ⟨label, hlabel, rfl⟩ | ⟨label, hlabel, rfl⟩ := h
  · refine ⟨hd.theoremLabel label hlabel, List.mem_append_left _ (List.mem_append_left _ ?_)⟩
    exact Option.mem_toList.2 hlabel
  · refine ⟨hd.locAfter label hlabel, List.mem_append_left _ (List.mem_append_right _ ?_)⟩
    exact Option.mem_toList.2 hlabel

/-- There is one field of each kind at most. -/
lemma withField_comm {draft : WorksheetDraft} {field field' : HeaderField}
    (h : field ∈ draft.fields) (h' : field' ∈ draft.fields) (init : WorksheetDraft) :
    withField (withField init field) field' = withField (withField init field') field := by
  simp only [WorksheetDraft.fields, List.mem_append, List.mem_map, Option.mem_toList] at h h'
  obtain ⟨label, hlabel, rfl⟩ | ⟨label, hlabel, rfl⟩ := h <;>
    obtain ⟨label', hlabel', rfl⟩ | ⟨label', hlabel', rfl⟩ := h'
  · obtain rfl := Option.mem_unique hlabel hlabel'
    rfl
  · rfl
  · rfl
  · obtain rfl := Option.mem_unique hlabel hlabel'
    rfl

/-- Fields in either order say the same. -/
lemma foldl_withField_perm {draft : WorksheetDraft} (hd : draft.Legible)
    (h : fields.Perm draft.fields) (steps : List StepDraft) :
    fields.foldl withField ⟨none, none, steps⟩ =
      ⟨draft.theoremLabel, draft.locAfter, steps⟩ := by
  have hcomm : ∀ x ∈ fields, ∀ y ∈ fields, ∀ init,
      withField (withField init x) y = withField (withField init y) x :=
    fun x hx y hy init => withField_comm (h.mem_iff.1 hx) (h.mem_iff.1 hy) init
  have hwritten {ref : Option String} (href : IsWord? ref) (w : String) (hw : w ∈ ref) :
      written w = ref := by
    rw [Option.mem_def.1 hw]
    exact (written_eq_some_iff (href w hw).1).2 rfl
  rw [h.foldl_eq' hcomm, WorksheetDraft.fields]
  have hlabel := hwritten hd.theoremLabel
  have hloc := hwritten hd.locAfter
  cases htheorem : draft.theoremLabel <;> cases hlocAfter : draft.locAfter <;>
    simp_all [withField]

/-- Every part of a layout is read where it stands. -/
lemma exists_worksheet_of_sheetText {draft : WorksheetDraft} (hd : draft.Legible)
    (hreturn : ∀ w ∈ draft.tokens, '\r' ∉ w.toList) (h : SheetText draft s) (size : Nat) :
    ∃ reads : List StepDraft,
      reads.map (StepDraft.placed {}) = draft.steps.map (StepDraft.placed {}) ∧
        worksheet size s = some ⟨draft.theoremLabel, draft.locAfter, reads⟩ := by
  obtain ⟨e, fields, header, s, b, body, blanks, he, hfields, hheader, hs, hb, hbody, hblanks,
    rfl⟩ := h
  have hsteps (d : StepDraft) (hmem : d ∈ draft.steps) (w : String) (hw : w ∈ d.tokens) :
      '\r' ∉ w.toList := by
    refine hreturn w ?_
    rw [WorksheetDraft.tokens, List.mem_append, List.mem_flatMap]
    exact .inr ⟨d, hmem, hw⟩
  have hvalues (field : HeaderField) (hmem : field ∈ fields) :
      Blankless field.value.toList ∧ '\r' ∉ field.value.toList := by
    obtain ⟨hword, htoken⟩ := isWord_of_mem_fields hd (hfields.mem_iff.1 hmem)
    exact ⟨hword.2, hreturn _ htoken⟩
  have hfooter : SheetReads size [] ("$)".toList ++ blanks) ("$)".toList ++ blanks) := by
    rw [SheetReads, many_of_none (nextStatement_footer hblanks size)]
    exact ⟨rfl, rfl⟩
  obtain ⟨⟨hreads, htail⟩, -⟩ := reads_bodyText hbody hd.steps hsteps rfl hfooter
  have hline := headerLine_headerText hheader hvalues
    (atBlank_spaces hs (atBlank_lineBreak hb (body ++ ("$)".toList ++ blanks))))
    (nextField_lineBreak hs hb _)
  have hempty (u : List Char) : skipEmptyLines (header ++ u) = header ++ u := by
    obtain ⟨_, _, _, -, -, -, rfl⟩ := hheader
    rfl
  refine ⟨_, hreads, ?_⟩
  rw [worksheet, he.skipEmptyLines_append, hempty, hline]
  simp only [bind, Option.bind_some, afterBreak?_skipSpaces hs hb, htail, expect_append,
    hblanks.skipBlanks_eq_nil, List.isEmpty_nil, if_true, pure, foldl_withField_perm hd hfields]

end Reading

/-- **A worksheet is read from each of its layouts.** Take a draft whose tokens hold no carriage
return and let the text be any layout of it: the fields of the header line in either order; empty
lines in front of header line, statements and footer; comments, with lines that continue them,
around the statements; in front of every symbol any mix of spaces, tabs and line breaks that are
followed by a space or a tab; spaces and tabs at the ends of lines; and every line break a line
feed, alone or behind a carriage return. Then the text holds that draft, up to the places of the
statements. -/
theorem WorksheetDraft.ofText?_of_sheetText {draft : WorksheetDraft} {text : String}
    (hd : draft.Legible) (hreturn : ∀ w ∈ draft.tokens, '\r' ∉ w.toList)
    (h : SheetText draft text.toList) :
    (WorksheetDraft.ofText? text).map unplaced = some draft.unplaced := by
  obtain ⟨reads, hreads, hworksheet⟩ :=
    exists_worksheet_of_sheetText hd hreturn h text.toList.length
  rw [WorksheetDraft.ofText?, hworksheet, Option.map_some, unplaced, unplaced, hreads]

/-- Both kinds of line break, the fields in the other order, a comment with a line that continues it
and an empty line behind that, and a formula on three lines. -/
theorem WorksheetDraft.ofText?_of_sheetText_note :
    let draft : WorksheetDraft := ⟨some "t", some "?",
      [.hypothesis { step := "1", ref := some "t.1", formula := some ⟨["|-", "x"]⟩ },
        .derivation { step := "qed", hyps := ["1"], ref := none, formula := some ⟨["y"]⟩ }]⟩
    let text := " \t\r\n$(  <MM>\t<PROOF_ASST> LOC_AFTER=?\tTHEOREM=t \n* note\r\n  more\n \n" ++
      "h1::t.1 |-\r\n\t\n x\t\r\n\nqed:1:\n y\n$) \r\n"
    SheetText draft text.toList ∧ (WorksheetDraft.ofText? text).map unplaced = some draft := by
  intro draft text
  have hformula (x : String) (h : IsSymbol x) (xs : List String) (hs : ∀ x ∈ xs, IsSymbol x) :
      ∀ f ∈ some (Formula.mk (x :: xs)), IsFormula f := by
    rintro _ ⟨⟩
    exact ⟨List.cons_ne_nil _ _, List.forall_mem_cons.2 ⟨h, hs⟩⟩
  have hdraft : draft.Legible := by
    refine ⟨by decide, by decide, List.forall_mem_cons.2 ⟨?_, List.forall_mem_singleton.2 ?_⟩⟩
    · exact ⟨by decide, by decide, hformula "|-" (by decide) ["x"] (by decide), rfl⟩
    · exact ⟨by decide, by decide, by decide, hformula "y" (by decide) [] (by decide), by decide,
        by decide⟩
  have hcomment : CommentText "* note\r\n  more".toList :=
    .continued (s := "  ".toList) (.line (by decide : '\n' ∉ " note".toList)) .returnFeed
      (by decide) (by decide) (by decide : '\n' ∉ "more".toList)
  have hfirst : StatementText (draft.steps.head (by decide)) "h1::t.1 |-\r\n\t\n x".toList :=
    ⟨" |-\r\n\t\n x".toList, .cons (g := " ".toList) (.space (by decide))
      (.cons (g := "\r\n\t\n ".toList) (.append (.lineBreak .returnFeed (by decide))
        (.lineBreak .feed (by decide))) .nil), by decide⟩
  have hlast : StatementText (draft.steps.getLast (by decide)) "qed:1:\n y".toList :=
    ⟨"\n y".toList, .cons (g := "\n ".toList) (.lineBreak .feed (by decide)) .nil, by decide⟩
  have htext : SheetText draft text.toList := by
    refine ⟨" \t\r\n".toList, [⟨.locAfter, "?"⟩, ⟨.theoremLabel, "t"⟩],
      "$(  <MM>\t<PROOF_ASST> LOC_AFTER=?\tTHEOREM=t".toList, " ".toList, "\n".toList,
      "* note\r\n  more\n \nh1::t.1 |-\r\n\t\n x\t\r\n\nqed:1:\n y\n".toList, " \r\n".toList,
      .line (s := " \t".toList) (by decide) .returnFeed .nil, .swap _ _ _, ?_, by decide, .feed, ?_,
      ?_, by decide⟩
    · exact ⟨"  ".toList, "\t".toList, " LOC_AFTER=?\tTHEOREM=t".toList, by decide, by decide,
        .cons (s := " ".toList) (by decide) (by decide)
          (.cons (s := "\t".toList) (by decide) (by decide) .nil), by decide⟩
    · exact .comment hcomment .feed <| .emptyLine (s := " ".toList) (by decide) .feed <|
        .step hfirst (s := "\t".toList) (by decide) .returnFeed <|
        .emptyLine (s := []) (by decide) .feed <| .step hlast (s := []) (by decide) .feed .nil
    · exact .space (by decide) (.lineBreak .returnFeed .nil)
  exact ⟨htext, WorksheetDraft.ofText?_of_sheetText hdraft (by decide) htext⟩

end ProofSheet
