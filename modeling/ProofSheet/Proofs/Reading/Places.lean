import ProofSheet.Proofs.Reading.Soundness
import ProofSheet.Proofs.Text.CharCounter

/-!
The places of statements: every worksheet that is read is a layout of its draft, and the carets of
the draft are the places of its statements in that layout.

* `PlacedBody`, `PlacedSheet`: the layouts of worksheets once more, now with the stretch of every
  statement. A stretch begins with the header of its statement and ends with its last token; blanks
  behind it and comments are outside;
* `exists_placedBody`: the statements of a text stand where their carets say, by induction on the
  repetition that takes them, with the text in front growing by one line a time;
* `exists_placedSheet`: **the same for a whole worksheet**.
-/

namespace ProofSheet

open Reading Text

namespace Reading

variable {s t before rest e c b blanks : List Char} {d : StepDraft} {ds pre post : List StepDraft}
  {places : List Stretch} {size : Nat}

/-! ### Layouts with places -/

/-- Statements and comments behind the characters `before`, each behind empty lines and with the end
of its line, and the stretches of the statements. -/
inductive PlacedBody : (before : List Char) → List StepDraft → List Stretch → List Char → Prop
  | nil {before : List Char} : PlacedBody before [] [] []
  | comment {before e c s b t : List Char} {ds : List StepDraft} {places : List Stretch}
      (he : EmptyLines e) (hc : CommentText c) (hs : Spaces s) (hb : LineBreak b)
      (h : PlacedBody (before ++ (e ++ (c ++ (s ++ b)))) ds places t) :
      PlacedBody before ds places (e ++ (c ++ (s ++ (b ++ t))))
  | step {before e c s b t : List Char} {d : StepDraft} {ds : List StepDraft}
      {places : List Stretch} (he : EmptyLines e) (hc : StatementText d c) (hs : Spaces s)
      (hb : LineBreak b) (h : PlacedBody (before ++ (e ++ (c ++ (s ++ b)))) ds places t) :
      PlacedBody before (d :: ds) (⟨before ++ e, c⟩ :: places) (e ++ (c ++ (s ++ (b ++ t))))

/-- A layout of a worksheet with the stretches of its statements. A field of the header line that
is written more than once counts where it is written last. -/
def PlacedSheet (draft : WorksheetDraft) (places : List Stretch) (text : List Char) : Prop :=
  ∃ e fields header s b body e' blanks, EmptyLines e ∧ HeaderText fields header ∧
    fields.foldl withField ⟨none, none, draft.steps⟩ = draft ∧ Spaces s ∧ LineBreak b ∧
    PlacedBody (e ++ (header ++ (s ++ b))) draft.steps places body ∧ EmptyLines e' ∧
    Blanks blanks ∧
    text = e ++ (header ++ (s ++ (b ++ (body ++ (e' ++ ("$)".toList ++ blanks))))))

/-- The stretches are in the text. -/
lemma PlacedBody.isIn (h : PlacedBody before ds places t) (rest : List Char) :
    ∀ place ∈ places, place.IsIn (before ++ (t ++ rest)) := by
  induction h with
  | nil => exact fun _ hplace => nomatch hplace
  | comment _ _ _ _ _ ih => simpa only [List.append_assoc] using ih
  | @step before e c s b t d ds places _ _ _ _ _ ih =>
      refine List.forall_mem_cons.2 ⟨⟨s ++ (b ++ (t ++ rest)), ?_⟩, ?_⟩
      · simp only [List.append_assoc]
      · simpa only [List.append_assoc] using ih

lemma PlacedSheet.isIn {draft : WorksheetDraft} {text : List Char}
    (h : PlacedSheet draft places text) : ∀ place ∈ places, place.IsIn text := by
  obtain ⟨e, fields, header, s, b, body, e', blanks, -, -, -, -, -, hbody, -, -, rfl⟩ := h
  simpa only [List.append_assoc] using hbody.isIn (e' ++ ("$)".toList ++ blanks))

/-- Every draft has its stretch, which holds its statement and nothing else. -/
lemma PlacedBody.exists_place (h : PlacedBody before ds places t) (hds : ds = pre ++ d :: post) :
    ∃ ps place qs, places = ps ++ place :: qs ∧ ps.length = pre.length ∧
      StatementText d place.own := by
  induction h generalizing pre with
  | nil => exact absurd hds.symm (List.append_ne_nil_of_right_ne_nil _ (List.cons_ne_nil _ _))
  | comment _ _ _ _ _ ih => exact ih hds
  | @step before e c s b t d' ds places _ hc _ _ _ ih =>
      cases pre with
      | nil =>
          obtain ⟨rfl, -⟩ := List.cons.inj hds
          exact ⟨[], _, places, rfl, rfl, hc⟩
      | cons first pre =>
          obtain ⟨ps, place, qs, rfl, hlength, hplace⟩ := ih (List.cons.inj hds).2
          exact ⟨_ :: ps, place, qs, rfl, congrArg (· + 1) hlength, hplace⟩

/-! ### Reading finds the places -/

/-- A statement behind empty lines, with the end of its line. -/
lemma exists_split_of_nextStatement {read : Option StepDraft}
    (h : nextStatement size s = some (read, rest)) :
    ∃ e c u b, EmptyLines e ∧ Spaces u ∧ LineBreak b ∧ s = e ++ (c ++ (u ++ (b ++ rest))) ∧
      (read = none → CommentText c) ∧
      ∀ d ∈ read, StatementText d c ∧
        d.caret = caretOf size (c ++ (u ++ (b ++ rest))) (u ++ (b ++ rest)) := by
  obtain ⟨⟨read', t⟩, hstatement, h⟩ := Option.bind_eq_some_iff.1 h
  obtain ⟨v, hv, h⟩ := Option.bind_eq_some_iff.1 h
  cases h
  obtain ⟨e, he, hs⟩ := exists_emptyLines s
  obtain ⟨c, hc, hread⟩ := exists_of_statement hstatement
  obtain ⟨u, hu, ht⟩ := exists_spaces t
  obtain ⟨b, hb, hbreak⟩ := exists_lineBreak hv
  rw [hbreak] at ht
  rw [hc, ht] at hs hread
  exact ⟨e, c, u, b, he, hu, hb, hs, hread⟩

/-- A caret is counted from the end of the text, a stretch from its start. -/
lemma caretOf_append (before c rest : List Char) (hsize : size = (before ++ (c ++ rest)).length) :
    caretOf size (c ++ rest) rest = (Stretch.mk before c).caret := by
  simp only [caretOf, Stretch.caret, hsize, List.length_append, Caret.mk.injEq]
  omega

/-- **The statements of a text stand where their carets say.** -/
lemma exists_placedBody (hsize : size = (before ++ s).length) :
    ∃ places t,
      PlacedBody before ((many (nextStatement size) (advances_nextStatement size) s).1.filterMap id)
        places t ∧
      s = t ++ (many (nextStatement size) (advances_nextStatement size) s).2 ∧
      ((many (nextStatement size) (advances_nextStatement size) s).1.filterMap id).map
        StepDraft.caret = places.map Stretch.caret := by
  fun_induction many (nextStatement size) (advances_nextStatement size) s generalizing before with
  | case1 s _ => exact ⟨[], [], .nil, rfl, rfl⟩
  | case2 s read rest taken more final heq ih =>
      obtain ⟨e, c, u, b, he, hu, hb, rfl, hread⟩ := exists_split_of_nextStatement taken
      have hsize' : size = (before ++ (e ++ (c ++ (u ++ b))) ++ rest).length := by
        simpa only [List.append_assoc] using hsize
      obtain ⟨places, t, hbody, hrest, hcarets⟩ := ih hsize'
      rw [heq] at hbody hrest hcarets
      cases read with
      | none =>
          refine ⟨places, e ++ (c ++ (u ++ (b ++ t))), .comment he (hread.1 rfl) hu hb hbody, ?_,
            hcarets⟩
          simp only [hrest, List.append_assoc]
      | some d =>
          obtain ⟨hc, hcaret⟩ := hread.2 d rfl
          refine ⟨⟨before ++ e, c⟩ :: places, e ++ (c ++ (u ++ (b ++ t))), .step he hc hu hb hbody,
            ?_, congrArg₂ List.cons ?_ hcarets⟩
          · simp only [hrest, List.append_assoc]
          · rw [hcaret]
            exact caretOf_append _ c _ (by rw [hsize, List.append_assoc])

/-- **Every worksheet that is read is a layout of its draft**, whose statements stand where their
carets say. -/
lemma exists_placedSheet {text : String} {draft : WorksheetDraft}
    (h : WorksheetDraft.ofText? text = some draft) :
    ∃ places, PlacedSheet draft places text.toList ∧
      draft.steps.map StepDraft.caret = places.map Stretch.caret := by
  rw [WorksheetDraft.ofText?, worksheet] at h
  generalize hsize : text.toList.length = size at h
  generalize text.toList = s at h hsize ⊢
  obtain ⟨⟨fields, s₁⟩, hheader, h⟩ := Option.bind_eq_some_iff.1 h
  obtain ⟨s₂, hbreak, h⟩ := Option.bind_eq_some_iff.1 h
  obtain ⟨s₃, hfooter, h⟩ := Option.bind_eq_some_iff.1 h
  split at h
  next hblanks =>
    cases h
    obtain ⟨e, he, hs⟩ := exists_emptyLines s
    obtain ⟨header, hheader, hs'⟩ := exists_headerText hheader
    obtain ⟨u, hu, hs₁⟩ := exists_spaces s₁
    obtain ⟨b, hb, hs₂⟩ := exists_lineBreak hbreak
    have htext : s = e ++ (header ++ (u ++ b)) ++ s₂ := by
      rw [hs, hs', hs₁, hs₂]
      simp only [List.append_assoc]
    rw [htext] at hsize
    obtain ⟨places, body, hbody, hs₃, hcarets⟩ := exists_placedBody hsize.symm
    obtain ⟨e', he', hend⟩ := exists_emptyLines
      (many (nextStatement size) (advances_nextStatement size) s₂).2
    rw [expect_eq_some_iff.1 hfooter] at hend
    have hsteps := foldl_withField_steps fields ⟨none, none,
      (many (nextStatement size) (advances_nextStatement size) s₂).1.filterMap id⟩
    refine ⟨places, ⟨e, fields, header, u, b, body, e', s₃, he, hheader, ?_, hu, hb, ?_, he',
      blanks_of_skipBlanks (List.isEmpty_iff.1 hblanks), ?_⟩, ?_⟩
    · rw [hsteps]
    · rw [hsteps]
      exact hbody
    · rw [htext, hs₃, hend]
      simp only [List.append_assoc]
    · rw [hsteps]
      exact hcarets
  · cases h

end Reading

end ProofSheet
