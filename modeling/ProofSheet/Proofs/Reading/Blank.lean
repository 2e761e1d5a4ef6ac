import ProofSheet.Proofs.Reading.Token

/-!
The blanks of worksheets as classes of texts, and what skipping does to them.

* `LineBreak`, `Spaces`: a line break; spaces and tabs, in a line (`spaces?_append`) and at its end
  (`afterBreak?_skipSpaces`);
* `EmptyLines`, `Blanks`: the blanks between statements, and those at the end of a text;
* `Gap`, `Gap.skipGap_append`: the blanks inside a statement, which are skipped up to where the text
  behind them has no gap.
-/

namespace ProofSheet.Reading

variable {s t b e g rest : List Char}

/-! ### Line breaks and spaces -/

/-- A line feed, alone or behind a carriage return. -/
inductive LineBreak : List Char → Prop
  | feed : LineBreak ['\n']
  | returnFeed : LineBreak ['\r', '\n']

/-- Spaces and tabs, possibly none. -/
def Spaces (s : List Char) : Prop :=
  ∀ c ∈ s, isSpace c = true

instance (s : List Char) : Decidable (Spaces s) :=
  List.decidableBAll _ s

lemma eq_space_or_tab {c : Char} (h : isSpace c = true) : c = ' ' ∨ c = '\t' := by
  rwa [isSpace, Bool.or_eq_true, beq_iff_eq, beq_iff_eq] at h

lemma spaces_cons {c : Char} : Spaces (c :: s) ↔ isSpace c = true ∧ Spaces s :=
  List.forall_mem_cons

lemma afterBreak?_append (hb : LineBreak b) (t : List Char) : afterBreak? (b ++ t) = some t := by
  cases hb <;> rfl

lemma atSpace_lineBreak (hb : LineBreak b) (t : List Char) : atSpace (b ++ t) = false := by
  cases hb <;> rfl

lemma atBlank_lineBreak (hb : LineBreak b) (t : List Char) : atBlank (b ++ t) = true := by
  cases hb <;> rfl

lemma atSpace_of_afterBreak? (h : afterBreak? s = some t) : atSpace s = false := by
  rw [afterBreak?.eq_def] at h
  split at h
  · rfl
  · rfl
  · cases h

lemma skipSpaces_append (hs : Spaces s) (t : List Char) : skipSpaces (s ++ t) = skipSpaces t :=
  List.dropWhile_append_of_pos hs

lemma skipSpaces_eq_self (h : atSpace s = false) : skipSpaces s = s := by
  cases s with
  | nil => rfl
  | cons c s => exact List.dropWhile_cons_of_neg (Bool.eq_false_iff.1 h)

/-- Spaces at the end of a line are skipped. -/
lemma afterBreak?_skipSpaces (hs : Spaces s) (hb : LineBreak b) (t : List Char) :
    afterBreak? (skipSpaces (s ++ (b ++ t))) = some t := by
  rw [skipSpaces_append hs, skipSpaces_eq_self (atSpace_lineBreak hb t), afterBreak?_append hb]

lemma spaces?_append (hs : Spaces s) (hne : s ≠ []) (t : List Char) :
    spaces? (s ++ t) = some (skipSpaces t) := by
  obtain ⟨c, more, rfl⟩ := List.exists_cons_of_ne_nil hne
  have hat : atSpace (c :: more ++ t) = true := (spaces_cons.1 hs).1
  rw [spaces?, hat, if_pos rfl, skipSpaces_append hs]

lemma skipEmptyFrom_append (hs : Spaces s) (hb : LineBreak b) (line t : List Char) :
    skipEmptyFrom line (s ++ (b ++ t)) = skipEmptyLines t := by
  induction s with
  | nil => cases hb <;> rfl
  | cons c s ih =>
      obtain ⟨hc, hs⟩ := spaces_cons.1 hs
      rw [← ih hs]
      rcases eq_space_or_tab hc with rfl | rfl <;> rfl

/-- An empty line is skipped. -/
lemma skipEmptyLines_append (hs : Spaces s) (hb : LineBreak b) (t : List Char) :
    skipEmptyLines (s ++ (b ++ t)) = skipEmptyLines t :=
  skipEmptyFrom_append hs hb _ t

lemma atBlank_spaces_append (hs : Spaces s) (hne : s ≠ []) (t : List Char) :
    atBlank (s ++ t) = true := by
  obtain ⟨c, more, rfl⟩ := List.exists_cons_of_ne_nil hne
  rw [List.cons_append, atBlank, Bool.or_eq_true]
  exact .inl (spaces_cons.1 hs).1

lemma atBlank_spaces (hs : Spaces s) (hrest : atBlank rest = true) :
    atBlank (s ++ rest) = true := by
  by_cases hne : s = []
  · rw [hne]
    exact hrest
  · exact atBlank_spaces_append hs hne rest

/-- Lines with nothing on them but spaces and tabs. -/
inductive EmptyLines : List Char → Prop
  | nil : EmptyLines []
  | line {s b t : List Char} (hs : Spaces s) (hb : LineBreak b) (h : EmptyLines t) :
      EmptyLines (s ++ (b ++ t))

lemma EmptyLines.skipEmptyLines_append (h : EmptyLines e) (t : List Char) :
    skipEmptyLines (e ++ t) = skipEmptyLines t := by
  induction h with
  | nil => rfl
  | line hs hb _ ih =>
      rw [List.append_assoc, List.append_assoc, Reading.skipEmptyLines_append hs hb, ih]

/-! ### Blanks at the end of a text -/

/-- Spaces, tabs and line breaks, possibly none. -/
inductive Blanks : List Char → Prop
  | nil : Blanks []
  | space {c : Char} {t : List Char} (hc : isSpace c = true) (h : Blanks t) : Blanks (c :: t)
  | lineBreak {b t : List Char} (hb : LineBreak b) (h : Blanks t) : Blanks (b ++ t)

lemma Blanks.skipBlanks_eq_nil (h : Blanks s) : skipBlanks s = [] := by
  induction h with
  | nil => rfl
  | @space c t hc _ ih => rcases eq_space_or_tab hc with rfl | rfl <;> exact ih
  | lineBreak hb _ ih => cases hb <;> exact ih

lemma Blanks.eq_nil_or_atBlank (h : Blanks s) : s = [] ∨ atBlank s = true := by
  cases h with
  | nil => exact .inl rfl
  | @space c t hc _ =>
      refine .inr ?_
      rw [atBlank, Bool.or_eq_true]
      exact .inl hc
  | lineBreak hb _ => exact .inr (atBlank_lineBreak hb _)

/-! ### Gaps -/

/-- The blanks between a header and its symbols, and between symbols: a mix, not empty, of spaces,
tabs, and line breaks that are followed by a space or a tab. -/
inductive Gap : List Char → Prop
  | space {c : Char} (hc : isSpace c = true) : Gap [c]
  | lineBreak {b : List Char} {c : Char} (hb : LineBreak b) (hc : isSpace c = true) :
      Gap (b ++ [c])
  | append {g g' : List Char} (hg : Gap g) (hg' : Gap g') : Gap (g ++ g')

lemma skipGap_space {c : Char} (hc : isSpace c = true) (t : List Char) :
    skipGap (c :: t) = skipGap t := by
  rcases eq_space_or_tab hc with rfl | rfl <;> rfl

lemma skipGap_spaces (hs : Spaces s) (t : List Char) : skipGap (s ++ t) = skipGap t := by
  induction s with
  | nil => rfl
  | cons c s ih =>
      obtain ⟨hc, hs⟩ := spaces_cons.1 hs
      rw [List.cons_append, skipGap_space hc, ih hs]

/-- A line break belongs to a gap only in front of a space. -/
lemma skipGap_lineBreak (hb : LineBreak b) (t : List Char) :
    skipGap (b ++ t) = if atSpace t then skipGap t else b ++ t := by
  cases hb <;> rfl

lemma Gap.skipGap_append (hg : Gap g) (t : List Char) :
    atGap (g ++ t) = true ∧ skipGap (g ++ t) = skipGap t := by
  induction hg generalizing t with
  | @space c hc => exact ⟨by rcases eq_space_or_tab hc with rfl | rfl <;> rfl, skipGap_space hc t⟩
  | @lineBreak b c hb hc =>
      have hat : atSpace (c :: t) = true := hc
      rw [List.append_assoc, List.singleton_append, skipGap_lineBreak hb, if_pos hat]
      refine ⟨?_, skipGap_space hc t⟩
      rw [atGap, afterBreak?_append hb, Option.any_some, hat, Bool.or_true]
  | @append g g' _ _ ih ih' =>
      rw [List.append_assoc]
      exact ⟨(ih _).1, (ih _).2.trans (ih' t).2⟩

lemma atBlank_of_atGap (h : atGap s = true) : atBlank s = true := by
  rw [atGap, Bool.or_eq_true] at h
  rw [atBlank, Bool.or_eq_true]
  refine h.imp_right fun h => ?_
  rw [atBreak]
  cases hbreak : afterBreak? s with
  | none =>
      rw [hbreak] at h
      cases h
  | some t => rfl

end ProofSheet.Reading
