import Mathlib.Data.List.TakeWhile
import ProofSheet.Proofs.Reading.SheetLayout

/-!
What readers take is laid out, the converse of reading layouts: a reader that succeeds has split its
text into a part of the grammar and the rest.

* `exists_emptyLines`, `exists_gap`, `blanks_of_skipBlanks`: the blanks that are skipped;
* `exists_symbolsText`, `exists_commentText`: formulas, and comments with all the lines that
  continue them, by induction on the repetition that takes them;
* `exists_of_statement`: **a statement is the text of its draft or a comment**, and the caret of the
  draft is the place of that text;
* `exists_headerText`: the header line.

Nothing is asked of the tokens here: carriage returns matter only for reading back what was
written.
-/

namespace ProofSheet

open Reading

/-- Where the statement of a draft stood. -/
def StepDraft.caret : StepDraft → Caret
  | hypothesis draft => draft.caret
  | derivation draft => draft.caret

namespace Reading

variable {s t b c g u line rest : List Char} {size : Nat}

/-! ### Blanks -/

lemma exists_lineBreak (h : afterBreak? s = some rest) : ∃ b, LineBreak b ∧ s = b ++ rest := by
  rw [afterBreak?.eq_def] at h
  split at h
  · cases h
    exact ⟨['\n'], .feed, rfl⟩
  · cases h
    exact ⟨['\r', '\n'], .returnFeed, rfl⟩
  · cases h

lemma spaces_nil : Spaces [] :=
  fun _ hc => nomatch hc

lemma exists_spaces (s : List Char) : ∃ u, Spaces u ∧ s = u ++ skipSpaces s :=
  ⟨s.takeWhile isSpace, fun _ hc => List.mem_takeWhile_imp hc, List.takeWhile_append_dropWhile.symm⟩

lemma exists_of_spaces? (h : spaces? s = some rest) :
    ∃ u, (Spaces u ∧ u ≠ []) ∧ s = u ++ rest := by
  rw [spaces?] at h
  split at h
  next hat =>
    cases h
    cases s with
    | nil => cases hat
    | cons d s =>
        obtain ⟨u, hu, hs⟩ := exists_spaces s
        refine ⟨d :: u, ⟨spaces_cons.2 ⟨hat, hu⟩, List.cons_ne_nil d u⟩, ?_⟩
        rw [skipSpaces, List.dropWhile_cons_of_pos (show isSpace d = true from hat)]
        exact congrArg (d :: ·) hs
  · cases h

lemma exists_emptyLines_lineBreak (hu : Spaces u) (hb : LineBreak b)
    (h : ∃ e, EmptyLines e ∧ t = e ++ rest) : ∃ e, EmptyLines e ∧ u ++ (b ++ t) = e ++ rest := by
  obtain ⟨e, he, rfl⟩ := h
  exact ⟨u ++ (b ++ e), .line hu hb he, by simp only [List.append_assoc]⟩

/-- The part of the line that has been read holds spaces only. -/
lemma exists_emptyLines_from (hu : Spaces u) (hline : line = u ++ s) :
    ∃ e, EmptyLines e ∧ line = e ++ skipEmptyFrom line s := by
  fun_induction skipEmptyFrom line s generalizing u with
  | case1 line => exact ⟨[], .nil, rfl⟩
  | case2 line t ih =>
      rw [hline]
      exact exists_emptyLines_lineBreak hu .feed (ih spaces_nil rfl)
  | case3 line t ih =>
      rw [hline]
      exact exists_emptyLines_lineBreak hu .returnFeed (ih spaces_nil rfl)
  | case4 line d t _ _ hd ih =>
      refine ih (List.forall_mem_append.2 ⟨hu, List.forall_mem_singleton.2 hd⟩) ?_
      rw [hline, List.append_assoc, List.singleton_append]
  | case5 line d t _ _ hd => exact ⟨[], .nil, rfl⟩

lemma exists_emptyLines (s : List Char) : ∃ e, EmptyLines e ∧ s = e ++ skipEmptyLines s :=
  exists_emptyLines_from spaces_nil rfl

lemma blanks_of_skipBlanks (h : skipBlanks s = []) : Blanks s := by
  fun_induction skipBlanks s with
  | case1 => exact .nil
  | case2 t ih => exact .lineBreak .feed (ih h)
  | case3 t ih => exact .lineBreak .returnFeed (ih h)
  | case4 d t _ _ hd ih => exact .space hd (ih h)
  | case5 d t _ _ hd => cases h

lemma Gap.ne_nil (hg : Gap g) : g ≠ [] := by
  induction hg with
  | space => exact List.cons_ne_nil _ _
  | lineBreak => exact List.append_ne_nil_of_right_ne_nil _ (List.cons_ne_nil _ _)
  | append _ _ ih _ => exact List.append_ne_nil_of_left_ne_nil ih _

lemma atSpace_append (hne : g ≠ []) (rest : List Char) : atSpace (g ++ rest) = atSpace g := by
  obtain ⟨d, more, rfl⟩ := List.exists_cons_of_ne_nil hne
  rfl

/-- A line break in front of a gap belongs to the gap if a space is behind it. -/
lemma Gap.lineBreak_append {b : List Char} (hb : LineBreak b) (hg : Gap g)
    (hspace : atSpace g = true) : Gap (b ++ g) := by
  induction hg with
  | space hc => exact .lineBreak hb hc
  | lineBreak hb' _ =>
      rw [atSpace_lineBreak hb'] at hspace
      cases hspace
  | append hg hg' ih _ =>
      rw [atSpace_append hg.ne_nil] at hspace
      rw [← List.append_assoc]
      exact .append (ih hspace) hg'

lemma exists_gap_lineBreak (hb : LineBreak b) (hspace : atSpace t = true)
    (h : ∃ g, Gap g ∧ t = g ++ rest) : ∃ g, Gap g ∧ b ++ t = g ++ rest := by
  obtain ⟨g, hg, rfl⟩ := h
  rw [atSpace_append hg.ne_nil] at hspace
  exact ⟨b ++ g, hg.lineBreak_append hb hspace, (List.append_assoc b g rest).symm⟩

lemma exists_gap_of_atGap (h : atGap s = true) : ∃ g, Gap g ∧ s = g ++ skipGap s := by
  have hat {t : List Char} (hspace : atSpace t = true) : atGap t = true := by
    rw [atGap, hspace, Bool.true_or]
  fun_induction skipGap s with
  | case1 => cases h
  | case2 t hspace ih => exact exists_gap_lineBreak .feed hspace (ih (hat hspace))
  | case3 t hspace =>
      rw [atGap_cons, afterBreak?, Option.any_some, Bool.eq_false_iff.2 hspace] at h
      cases h
  | case4 t hspace ih => exact exists_gap_lineBreak .returnFeed hspace (ih (hat hspace))
  | case5 t hspace =>
      rw [atGap_cons, afterBreak?, Option.any_some, Bool.eq_false_iff.2 hspace] at h
      cases h
  | case6 d t _ _ hd ih =>
      by_cases hgap : atGap t = true
      · obtain ⟨g, hg, ht⟩ := ih hgap
        exact ⟨[d] ++ g, .append (.space hd) hg, congrArg (d :: ·) ht⟩
      · rw [skipGap_eq_self (Bool.eq_false_iff.2 hgap)]
        exact ⟨[d], .space hd, rfl⟩
  | case7 d t hfeed hreturn hd =>
      have hblank : atBlank (d :: t) = false := by
        refine atBlank_cons_eq_false_iff.2 ⟨⟨Bool.eq_false_iff.2 hd, fun h => hfeed h⟩, ?_⟩
        rintro ⟨hd, ht⟩
        obtain ⟨more, rfl⟩ := List.head?_eq_some_iff.1 ht
        exact hreturn more hd rfl
      exact absurd ((atBlank_of_atGap h).symm.trans hblank) (by decide)

lemma exists_gap (h : gap? s = some rest) : ∃ g, Gap g ∧ s = g ++ rest := by
  rw [gap?] at h
  split at h
  next hat =>
    cases h
    exact exists_gap_of_atGap hat
  · cases h

/-! ### Formulas and statements -/

lemma exists_of_nextSymbol {x : String} (h : nextSymbol s = some (x, rest)) :
    ∃ g, Gap g ∧ s = g ++ (x.toList ++ rest) := by
  obtain ⟨t, ht, h⟩ := Option.bind_eq_some_iff.1 h
  obtain ⟨rfl, -⟩ := symbol_eq_some_iff.1 h
  exact exists_gap ht

lemma exists_symbolsText (s : List Char) :
    ∃ t, SymbolsText (many nextSymbol advances_nextSymbol s).1 t ∧
      s = t ++ (many nextSymbol advances_nextSymbol s).2 := by
  fun_induction many nextSymbol advances_nextSymbol s with
  | case1 s _ => exact ⟨[], .nil, rfl⟩
  | case2 s x rest taken more final heq ih =>
      obtain ⟨g, hg, rfl⟩ := exists_of_nextSymbol taken
      rw [heq] at ih
      obtain ⟨t, ht, rfl⟩ := ih
      exact ⟨g ++ (x.toList ++ t), .cons hg ht, by simp only [List.append_assoc]⟩

/-- A formula that is read behind a header. -/
lemma exists_symbolsText_formula {header : List Char} (hs : s = header ++ t) :
    ∃ symbols, SymbolsText (symbolsOf (optional nextFormula t).1) symbols ∧
      s = header ++ symbols ++ (optional nextFormula t).2 := by
  have hmany : many nextSymbol advances_nextSymbol t =
      (symbolsOf (optional nextFormula t).1, (optional nextFormula t).2) :=
    (optional_nextFormula_eq_iff (isFormula_of_optional t)).1 rfl
  obtain ⟨symbols, hsymbols, ht⟩ := exists_symbolsText t
  rw [hmany] at hsymbols ht
  exact ⟨symbols, hsymbols, by rw [hs, List.append_assoc, ← ht]⟩

lemma exists_of_hypothesisStatement {draft : HypothesisDraft}
    (h : hypothesisStatement size s = some (draft, rest)) :
    ∃ c, s = c ++ rest ∧ StatementText (.hypothesis draft) c ∧
      draft.caret = caretOf size s rest := by
  obtain ⟨⟨⟨step, ref⟩, t⟩, hheader, h⟩ := Option.bind_eq_some_iff.1 h
  obtain ⟨hs, -⟩ := hypothesisHeader_eq_some_iff.1 hheader
  obtain ⟨symbols, hsymbols, hs⟩ := exists_symbolsText_formula hs
  cases h
  exact ⟨_, hs, ⟨symbols, hsymbols, rfl⟩, rfl⟩

lemma exists_of_derivationStatement {draft : DerivationDraft}
    (h : derivationStatement size s = some (draft, rest)) :
    ∃ c, s = c ++ rest ∧ StatementText (.derivation draft) c ∧
      draft.caret = caretOf size s rest := by
  obtain ⟨⟨⟨step, hyps, ref⟩, t⟩, hheader, h⟩ := Option.bind_eq_some_iff.1 h
  obtain ⟨hs, -⟩ := derivationHeader_eq_some_iff.1 hheader
  obtain ⟨symbols, hsymbols, hs⟩ := exists_symbolsText_formula hs
  cases h
  exact ⟨_, hs, ⟨symbols, hsymbols, rfl⟩, rfl⟩

/-! ### Comments -/

lemma exists_skipLine (s : List Char) : ∃ text, '\n' ∉ text ∧ s = text ++ skipLine s := by
  refine ⟨takeUntil atBreak s, ?_, (takeUntil_append_dropUntil atBreak s).symm⟩
  induction s with
  | nil => exact List.not_mem_nil
  | cons d s ih =>
      rw [takeUntil]
      split
      · exact List.not_mem_nil
      next hat =>
        rw [atBreak_cons, Bool.or_eq_true, beq_iff_eq, not_or] at hat
        exact List.not_mem_cons_of_ne_of_not_mem (Ne.symm hat.1) ih

lemma exists_of_continuation (h : continuation s = some ((), rest)) :
    ∃ b u text, LineBreak b ∧ (Spaces u ∧ u ≠ []) ∧ '\n' ∉ text ∧
      s = b ++ (u ++ (text ++ rest)) := by
  simp only [continuation, bind, Option.bind_eq_some_iff] at h
  obtain ⟨t, ht, v, hv, h⟩ := h
  cases h
  obtain ⟨b, hb, rfl⟩ := exists_lineBreak ht
  obtain ⟨u, hu, rfl⟩ := exists_of_spaces? hv
  obtain ⟨text, htext, hline⟩ := exists_skipLine v
  exact ⟨b, u, text, hb, hu, htext, by rw [← hline]⟩

/-- A comment with the lines that continue it. -/
lemma exists_commentText_many (hc : CommentText c) (s : List Char) :
    ∃ more, CommentText (c ++ more) ∧
      s = more ++ (many continuation advances_continuation s).2 := by
  fun_induction many continuation advances_continuation s generalizing c with
  | case1 s _ => exact ⟨[], by rwa [List.append_nil], rfl⟩
  | case2 s _ rest taken more final heq ih =>
      obtain ⟨b, u, text, hb, ⟨hu, hne⟩, htext, rfl⟩ := exists_of_continuation taken
      obtain ⟨more, hmore, hrest⟩ := ih (.continued hc hb hu hne htext)
      rw [heq] at hrest
      refine ⟨b ++ (u ++ text) ++ more, ?_, ?_⟩
      · rwa [← List.append_assoc]
      · rw [hrest]
        simp only [List.append_assoc]

lemma exists_commentText (h : comment s = some rest) : ∃ c, CommentText c ∧ s = c ++ rest := by
  obtain ⟨t, ht, h⟩ := Option.bind_eq_some_iff.1 h
  cases h
  obtain ⟨text, htext, hline⟩ := exists_skipLine t
  obtain ⟨more, hmore, hrest⟩ := exists_commentText_many (.line htext) (skipLine t)
  refine ⟨'*' :: text ++ more, hmore, ?_⟩
  rw [List.append_assoc, ← hrest, List.cons_append, ← hline]
  exact expect_eq_some_iff.1 ht

/-- **A statement that is read** is the text of its draft, which stands where its caret says, or it
is a comment. -/
lemma exists_of_statement {read : Option StepDraft} (h : statement size s = some (read, rest)) :
    ∃ c, s = c ++ rest ∧ (read = none → CommentText c) ∧
      ∀ d ∈ read, StatementText d c ∧ d.caret = caretOf size s rest := by
  rcases statement_cases h with
    ⟨hcomment, rfl⟩ | ⟨-, draft, hdraft, rfl⟩ | ⟨-, -, draft, hdraft, rfl⟩
  · obtain ⟨c, hc, hs⟩ := exists_commentText hcomment
    exact ⟨c, hs, fun _ => hc, fun _ hd => nomatch hd⟩
  · obtain ⟨c, hs, hc⟩ := exists_of_hypothesisStatement hdraft
    exact ⟨c, hs, nofun, fun _ hd => Option.some.inj hd ▸ hc⟩
  · obtain ⟨c, hs, hc⟩ := exists_of_derivationStatement hdraft
    exact ⟨c, hs, nofun, fun _ hd => Option.some.inj hd ▸ hc⟩

/-! ### The header line -/

lemma exists_of_nextField {field : HeaderField} (h : nextField s = some (field, rest)) :
    ∃ u, (Spaces u ∧ u ≠ []) ∧ s = u ++ (field.text.toList ++ rest) := by
  obtain ⟨t, ht, hvalue⟩ := nextField_eq_some_iff.1 h
  obtain ⟨u, hu, hs⟩ := exists_of_spaces? ht
  obtain ⟨rfl, -⟩ := fieldValue_eq_iff.1 hvalue
  refine ⟨u, hu, hs.trans ?_⟩
  rw [HeaderField.text, String.toList_append, List.append_assoc]

lemma exists_fieldsText (s : List Char) :
    ∃ t, FieldsText (many nextField advances_nextField s).1 t ∧
      s = t ++ (many nextField advances_nextField s).2 := by
  fun_induction many nextField advances_nextField s with
  | case1 s _ => exact ⟨[], .nil, rfl⟩
  | case2 s field rest taken more final heq ih =>
      obtain ⟨u, ⟨hu, hne⟩, rfl⟩ := exists_of_nextField taken
      rw [heq] at ih
      obtain ⟨t, ht, rfl⟩ := ih
      exact ⟨u ++ (field.text.toList ++ t), .cons hu hne ht, by simp only [List.append_assoc]⟩

lemma exists_headerText {fields : List HeaderField} (h : headerLine s = some (fields, rest)) :
    ∃ header, HeaderText fields header ∧ s = header ++ rest := by
  simp only [headerLine, bind, Option.bind_eq_some_iff] at h
  obtain ⟨s₁, h₁, s₂, h₂, s₃, h₃, s₄, h₄, s₅, h₅, h⟩ := h
  obtain ⟨u, hu, rfl⟩ := exists_of_spaces? h₂
  obtain ⟨u', hu', rfl⟩ := exists_of_spaces? h₄
  obtain ⟨t, ht, hs₅⟩ := exists_fieldsText s₅
  rw [Option.some.inj h] at ht hs₅
  refine ⟨_, ⟨u, u', t, hu, hu', ht, rfl⟩, ?_⟩
  rw [expect_eq_some_iff.1 h₁, expect_eq_some_iff.1 h₃, expect_eq_some_iff.1 h₅, hs₅]
  simp only [List.append_assoc]

end Reading

end ProofSheet
