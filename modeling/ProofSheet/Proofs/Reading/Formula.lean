import ProofSheet.Proofs.Reading.Header

/-!
Formulas on a line: the header of a step, and its symbols with one space in front of each.

* `IsFormula`, `spaced`, `toList_statementText`: formulas of worksheets, and how they are written;
* `many_nextSymbol_line`: the symbols on a line are read, unless the last of them ends in a
  carriage return, which the line break swallows;
* `not_breaksInto_of_many`: symbols that are read back did not end in one.
-/

namespace ProofSheet.Reading

/-! ### Formulas on a line -/

/-- A formula of a worksheet: one symbol or more. -/
def IsFormula (formula : Formula) : Prop :=
  formula.symbols ≠ [] ∧ ∀ x ∈ formula.symbols, IsSymbol x

/-- The symbols of a formula that may be missing. -/
def symbolsOf (formula : Option Formula) : List String :=
  formula.elim [] (·.symbols)

/-- Words with a space in front of each. -/
def spaced (words : List String) : List Char :=
  words.flatMap fun word => ' ' :: word.toList

lemma spaced_cons (word : String) (words : List String) :
    spaced (word :: words) = ' ' :: (word.toList ++ spaced words) := rfl

lemma toList_statementText (header : String) (formula : Option Formula) :
    (statementText header formula).toList = header.toList ++ spaced (symbolsOf formula) := by
  cases formula with
  | none => simp [statementText, symbolsOf, spaced]
  | some formula =>
      obtain ⟨symbols⟩ := formula
      cases symbols with
      | nil => simp [statementText, symbolsOf, spaced, Formula.isEmpty]
      | cons first more =>
          simp only [statementText, Formula.isEmpty, List.isEmpty_cons, Bool.false_eq_true,
            if_false, String.toList_append, Formula.toText, toList_intercalate_cons, symbolsOf,
            Option.elim_some, spaced_cons, List.append_assoc]
          rfl

/-- A formula behind a gap is one symbol behind a gap, or more. -/
lemma nextFormula_eq_some_iff {s rest : List Char} {formula : Formula} :
    nextFormula s = some (formula, rest) ↔
      formula.symbols ≠ [] ∧ many nextSymbol advances_nextSymbol s = (formula.symbols, rest) := by
  have hread : nextFormula s = (nextSymbol s).map fun p =>
      (⟨p.1 :: (many nextSymbol advances_nextSymbol p.2).1⟩,
        (many nextSymbol advances_nextSymbol p.2).2) := by
    simp only [nextFormula, nextSymbol, Reading.formula, bind, pure]
    cases gap? s with
    | none => rfl
    | some t =>
        simp only [Option.bind_some]
        cases symbol t <;> rfl
  obtain ⟨symbols⟩ := formula
  rw [hread]
  cases h : nextSymbol s with
  | none =>
      rw [many_of_none h]
      constructor
      · intro h
        cases h
      · rintro ⟨hne, h⟩
        exact absurd (Prod.mk.inj h).1.symm hne
  | some first =>
      rw [many_of_some h]
      cases symbols <;> simp [Prod.ext_iff]

lemma optional_nextFormula_eq_iff {s rest : List Char} {formula : Option Formula}
    (hf : ∀ f ∈ formula, IsFormula f) :
    optional nextFormula s = (formula, rest) ↔
      many nextSymbol advances_nextSymbol s = (symbolsOf formula, rest) := by
  rw [optional]
  cases h : nextFormula s with
  | some read =>
      obtain ⟨formula', t⟩ := read
      obtain ⟨hne, hmany⟩ := nextFormula_eq_some_iff.1 h
      rw [hmany]
      cases formula with
      | none => simp [symbolsOf, hne]
      | some formula =>
          obtain ⟨symbols⟩ := formula
          obtain ⟨symbols'⟩ := formula'
          simp [symbolsOf]
  | none =>
      -- no formula is read, so not even one symbol is
      have hmany : many nextSymbol advances_nextSymbol s = ([], s) := by
        cases hs : nextSymbol s with
        | none => exact many_of_none hs
        | some first =>
            have hmany : many nextSymbol advances_nextSymbol s =
                (first.1 :: (many nextSymbol advances_nextSymbol first.2).1,
                  (many nextSymbol advances_nextSymbol first.2).2) := many_of_some hs
            have hsome := nextFormula_eq_some_iff.2 ⟨List.cons_ne_nil _ _, hmany⟩
            rw [h] at hsome
            cases hsome
      rw [hmany]
      cases formula with
      | none => simp [symbolsOf]
      | some formula => simp [symbolsOf, (hf formula rfl).1.symm]

lemma atGap_cons {c : Char} {s : List Char} :
    atGap (c :: s) = (isSpace c || (afterBreak? (c :: s)).any atSpace) := rfl

/-- Nothing is skipped where no gap is. -/
lemma skipGap_eq_self {s : List Char} (h : atGap s = false) : skipGap s = s := by
  rw [skipGap.eq_def]
  split
  · rfl
  next rest =>
    rw [atGap_cons, Bool.or_eq_false_iff, afterBreak?, Option.any_some] at h
    rw [h.2]
    rfl
  next rest =>
    rw [atGap_cons, Bool.or_eq_false_iff, afterBreak?, Option.any_some] at h
    rw [h.2]
    rfl
  next c rest _ _ =>
    rw [atGap_cons, Bool.or_eq_false_iff] at h
    rw [h.1]
    rfl

/-- No gap is where a word begins.  A word that is a lone carriage return stays one only if no
line break with a space behind it begins there. -/
lemma atGap_word {w : String} (hw : IsWord w) {t : List Char}
    (ht : ∀ rest, t = '\n' :: rest → atSpace rest = false) :
    atGap (w.toList ++ t) = false := by
  obtain ⟨c, more, hc⟩ := hw.exists_cons
  obtain ⟨⟨hspace, hfeed⟩, hmore⟩ := blankless_cons.1 (hc ▸ hw.2)
  rw [hc, List.cons_append, atGap_cons, hspace, Bool.false_or]
  cases hbreak : afterBreak? (c :: (more ++ t)) with
  | none => rfl
  | some rest =>
      rw [Option.any_some]
      rw [afterBreak?.eq_def] at hbreak
      split at hbreak
      next heq => exact absurd (List.cons.inj heq).1 hfeed
      next heq =>
        cases hbreak
        cases more with
        | nil => exact ht rest (List.cons.inj heq).2
        | cons d more =>
            have hd := (List.cons.inj (List.cons.inj heq).2).1
            exact absurd hd (blankless_cons.1 hmore).1.2
      next => cases hbreak

lemma nextSymbol_space {w : String} (hw : IsWord w) {t : List Char}
    (ht : ∀ rest, t = '\n' :: rest → atSpace rest = false) :
    nextSymbol (' ' :: (w.toList ++ t)) = symbol (w.toList ++ t) := by
  have hskip : skipGap (' ' :: (w.toList ++ t)) = w.toList ++ t :=
    skipGap_eq_self (atGap_word hw ht)
  have hgap : gap? (' ' :: (w.toList ++ t)) = some (skipGap (' ' :: (w.toList ++ t))) := rfl
  rw [nextSymbol, hgap, hskip]
  rfl

section Line

variable {rest : List Char} (hrest : atSpace rest = false)
include hrest

/-- Behind a symbol stands the next one with a space between them, or the end of the line. -/
lemma spaced_line (more : List String) :
    atBlank (spaced more ++ '\n' :: rest) = true ∧
      ∀ t, spaced more ++ '\n' :: rest = '\n' :: t → atSpace t = false := by
  cases more with
  | nil =>
      refine ⟨rfl, fun t ht => ?_⟩
      rw [← (List.cons.inj ht).2]
      exact hrest
  | cons x more => exact ⟨rfl, fun t ht => by cases (List.cons.inj ht).1⟩

/-- The symbols on a line are read, if the last of them does not end in a carriage return. -/
lemma many_nextSymbol_line {xs : List String} (hxs : ∀ x ∈ xs, IsSymbol x)
    (hend : ¬ BreaksInto (spaced xs) ('\n' :: rest)) :
    many nextSymbol advances_nextSymbol (spaced xs ++ '\n' :: rest) = (xs, '\n' :: rest) := by
  refine many_flatMap (fun pre x post h => ?_) ?_
  · have hx : IsSymbol x := hxs x (h ▸ by simp)
    obtain ⟨hblank, hbreak⟩ := spaced_line hrest post
    rw [List.cons_append]
    refine (nextSymbol_space hx.1 hbreak).trans (symbol_eq_some_iff.2 ⟨rfl, hx, ?_, .inr hblank⟩)
    cases post with
    | nil =>
        subst h
        rw [spaced, List.flatMap_append] at hend
        intro hx'
        refine hend ((breaksInto_append (by simp)).2 ?_)
        simpa using (breaksInto_append (v := [' ']) hx.1.toList_ne_nil).2 hx'
    | cons y post => exact not_breaksInto_of_head (by decide)
  · have hgap : atGap ('\n' :: rest) = false := by
      rw [atGap, afterBreak?, Option.any_some, hrest]
      rfl
    rw [nextSymbol, gap?, hgap]
    rfl

/-- Symbols on a line that are read back did not end in a carriage return. -/
lemma not_breaksInto_of_many {xs : List String} (hxs : ∀ x ∈ xs, IsSymbol x)
    (h : (many nextSymbol advances_nextSymbol (spaced xs ++ '\n' :: rest)).1 = xs) :
    ¬ BreaksInto (spaced xs) ('\n' :: rest) := by
  induction xs with
  | nil => exact not_breaksInto_nil _
  | cons x xs ih =>
      obtain ⟨hx, hxs'⟩ := List.forall_mem_cons.1 hxs
      obtain ⟨hblank, hbreak⟩ := spaced_line hrest xs
      have hnext := nextSymbol_space hx.1 hbreak
      rw [spaced_cons, List.cons_append, List.append_assoc] at h
      cases hread : symbol (x.toList ++ (spaced xs ++ '\n' :: rest)) with
      | none =>
          rw [many_of_none (hnext.trans hread)] at h
          cases h
      | some read =>
          obtain ⟨x', t⟩ := read
          rw [many_of_some (hnext.trans hread)] at h
          obtain ⟨rfl, hmore⟩ := List.cons.inj h
          obtain ⟨ht, -, hbreaks, -⟩ := symbol_eq_some_iff.1 hread
          rw [← List.append_cancel_left ht] at hmore hbreaks
          rw [spaced_cons, ← List.cons_append]
          cases xs with
          | nil =>
              rw [spaced, List.flatMap_nil, List.append_nil]
              exact fun hb => hbreaks
                ((breaksInto_append (v := [' ']) hx.1.toList_ne_nil).1 hb)
          | cons y xs =>
              rw [breaksInto_append (by simp [spaced])]
              exact ih hxs' hmore

end Line

end ProofSheet.Reading
