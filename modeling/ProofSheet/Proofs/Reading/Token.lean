import Mathlib.Data.List.Basic
import ProofSheet.Reading.Step

/-!
Tokens: the words, step numbers and math symbols of worksheets, by the characters in them.

* `Blankless`, `BreaksInto`: no space, tab or line feed inside, and the one way in which a word
  and the text behind it make a blank together, a carriage return in front of a line feed;
* `IsWord`, `IsNumber`, `IsSymbol`: the tokens as classes of strings;
* `refField_eq_some_iff`, `stepNumber_eq_some_iff`, `symbol_eq_some_iff`: a reader of tokens takes
  exactly the tokens of its class, and as much as it can;
* `many_flatMap`, `flatMap_many`, `forall_mem_many`: repetitions, forwards and backwards.
-/

namespace ProofSheet.Reading

variable {α : Type}

/-! ### Fixed words -/

lemma expect_append (word : String) (s : List Char) : expect word (word.toList ++ s) = some s :=
  expect_eq_some_iff.2 rfl

/-! ### Maximal runs -/

/-- `stop` accepts no place inside `w`, where `rest` stands behind `w`. -/
def Passes (stop : List Char → Bool) : (w rest : List Char) → Prop
  | [], _ => True
  | c :: w, rest => stop (c :: (w ++ rest)) = false ∧ Passes stop w rest

/-- The run before the first stop is the one that passes up to it. -/
lemma takeUntil_eq_iff {stop : List Char → Bool} {s w rest : List Char} :
    takeUntil stop s = w ∧ dropUntil stop s = rest ↔
      s = w ++ rest ∧ Passes stop w rest ∧ (rest = [] ∨ stop rest = true) := by
  induction s generalizing w with
  | nil =>
      constructor
      · rintro ⟨rfl, rfl⟩
        exact ⟨rfl, trivial, .inl rfl⟩
      · rintro ⟨h, -⟩
        obtain ⟨rfl, rfl⟩ := List.append_eq_nil_iff.1 h.symm
        exact ⟨rfl, rfl⟩
  | cons c s ih =>
      rw [takeUntil, dropUntil]
      by_cases hc : stop (c :: s) = true
      · rw [if_pos hc, if_pos hc]
        constructor
        · rintro ⟨rfl, rfl⟩
          exact ⟨rfl, trivial, .inr hc⟩
        · rintro ⟨h, hw, -⟩
          cases w with
          | nil => exact ⟨rfl, h⟩
          | cons d w =>
              rw [Passes, ← List.cons_append, ← h, hc] at hw
              cases hw.1
      · rw [if_neg hc, if_neg hc]
        constructor
        · rintro ⟨rfl, hrest⟩
          obtain ⟨hs, hw, hend⟩ := ih.1 ⟨rfl, hrest⟩
          refine ⟨congrArg (c :: ·) hs, ⟨?_, hw⟩, hend⟩
          rw [← hs]
          exact Bool.eq_false_iff.2 hc
        · rintro ⟨h, hw, hend⟩
          cases w with
          | nil =>
              rcases hend with rfl | hend
              · cases h
              · rw [List.nil_append] at h
                exact absurd (h ▸ hend) hc
          | cons d w =>
              obtain ⟨rfl, hs⟩ := List.cons.inj h
              obtain ⟨h1, h2⟩ := ih.2 ⟨hs, hw.2, hend⟩
              exact ⟨congrArg (c :: ·) h1, h2⟩

lemma token_eq_some_iff {stop : List Char → Bool} {s rest : List Char} {w : String} :
    token stop s = some (w, rest) ↔
      w ≠ "" ∧ s = w.toList ++ rest ∧ Passes stop w.toList rest ∧
        (rest = [] ∨ stop rest = true) := by
  rw [← takeUntil_eq_iff, token]
  cases hw : takeUntil stop s with
  | nil =>
      constructor
      · intro h
        cases h
      · rintro ⟨hne, h, -⟩
        exact absurd (String.toList_inj.1 (h.symm.trans String.toList_empty.symm)) hne
  | cons c more =>
      simp only [Option.some.injEq, Prod.mk.injEq]
      constructor
      · rintro ⟨rfl, rfl⟩
        exact ⟨by simp, by simp, rfl⟩
      · rintro ⟨-, h, rfl⟩
        exact ⟨by rw [h, String.ofList_toList], rfl⟩

lemma token_eq_none_iff {stop : List Char → Bool} {s : List Char} :
    token stop s = none ↔ s = [] ∨ stop s = true := by
  cases s with
  | nil => simp [token, takeUntil]
  | cons c s => by_cases hc : stop (c :: s) = true <;> simp [token, takeUntil, hc]

/-! ### Blanks inside a word -/

/-- There is no space, tab or line feed among the characters. -/
def Blankless (w : List Char) : Prop :=
  ∀ c ∈ w, isSpace c = false ∧ c ≠ '\n'

instance (w : List Char) : Decidable (Blankless w) :=
  List.decidableBAll _ w

/-- The last character of a word and the first one behind it are a line break together. -/
def BreaksInto (w rest : List Char) : Prop :=
  w.getLast? = some '\r' ∧ rest.head? = some '\n'

lemma blankless_cons {c : Char} {w : List Char} :
    Blankless (c :: w) ↔ (isSpace c = false ∧ c ≠ '\n') ∧ Blankless w :=
  List.forall_mem_cons

lemma not_breaksInto_nil (rest : List Char) : ¬ BreaksInto [] rest :=
  fun h => nomatch h.1

lemma not_breaksInto_of_head {w rest : List Char} {c : Char} (h : c ≠ '\n') :
    ¬ BreaksInto w (c :: rest) :=
  fun hb => h (Option.some.inj hb.2)

/-- Only the end of a word matters. -/
lemma breaksInto_append {v w rest : List Char} (h : w ≠ []) :
    BreaksInto (v ++ w) rest ↔ BreaksInto w rest := by
  rw [BreaksInto, BreaksInto, List.getLast?_append_of_ne_nil _ h]

lemma atBreak_cons {c : Char} {s : List Char} :
    atBreak (c :: s) = (c == '\n' || (c == '\r' && startsWith '\n' s)) := by
  cases s <;> simp only [atBreak, afterBreak?, startsWith] <;> split <;> simp_all

lemma atBlank_cons_eq_false_iff {c : Char} {s : List Char} :
    atBlank (c :: s) = false ↔
      (isSpace c = false ∧ c ≠ '\n') ∧ ¬ (c = '\r' ∧ s.head? = some '\n') := by
  rw [atBlank, atBreak_cons]
  simp [atSpace, startsWith, and_assoc]

/-- A word passes for one without blanks unless a line break begins at its end. -/
lemma passes_atBlank_iff {w rest : List Char} :
    Passes atBlank w rest ↔ Blankless w ∧ ¬ BreaksInto w rest := by
  induction w with
  | nil => simp [Passes, Blankless, not_breaksInto_nil]
  | cons c w ih =>
      rw [Passes, ih, atBlank_cons_eq_false_iff, blankless_cons]
      cases w with
      | nil => simp [Blankless, BreaksInto]
      | cons d w =>
          have hd (hw : Blankless (d :: w)) : d ≠ '\n' := (blankless_cons.1 hw).1.2
          rw [← List.singleton_append (l := d :: w), breaksInto_append (List.cons_ne_nil d w)]
          simp only [List.cons_append, List.head?_cons, Option.some.injEq]
          tauto

lemma passes_endsStepNumber_iff {w rest : List Char} :
    Passes endsStepNumber w rest ↔
      (Blankless w ∧ ¬ BreaksInto w rest) ∧ ':' ∉ w ∧ ',' ∉ w := by
  rw [← passes_atBlank_iff]
  induction w with
  | nil => simp [Passes]
  | cons c w ih =>
      rw [Passes, ih, Passes]
      simp only [endsStepNumber, startsWith, List.head?_cons, Bool.or_eq_false_iff,
        beq_eq_false_iff_ne, ne_eq, Option.some.injEq, List.mem_cons, not_or]
      tauto

/-! ### Classes of tokens -/

/-- A word: not empty, and without blanks. -/
def IsWord (w : String) : Prop :=
  w ≠ "" ∧ Blankless w.toList

/-- A step number is a word without a colon or a comma. -/
def IsNumber (w : String) : Prop :=
  IsWord w ∧ ':' ∉ w.toList ∧ ',' ∉ w.toList

/-- A math symbol is a word that does not begin with a dollar sign. -/
def IsSymbol (w : String) : Prop :=
  IsWord w ∧ startsWith '$' w.toList = false

instance (w : String) : Decidable (IsWord w) :=
  inferInstanceAs (Decidable (_ ∧ _))

instance (w : String) : Decidable (IsNumber w) :=
  inferInstanceAs (Decidable (_ ∧ _))

instance (w : String) : Decidable (IsSymbol w) :=
  inferInstanceAs (Decidable (_ ∧ _))

lemma IsWord.toList_ne_nil {w : String} (h : IsWord w) : w.toList ≠ [] :=
  fun hw => h.1 (String.toList_inj.1 (hw.trans String.toList_empty.symm))

lemma IsWord.exists_cons {w : String} (h : IsWord w) : ∃ c more, w.toList = c :: more :=
  List.exists_cons_of_ne_nil h.toList_ne_nil

/-- What is behind the first character of a step number is one as well. -/
lemma IsNumber.tail {w : String} (h : IsNumber w) {c : Char} {more : List Char}
    (hw : w.toList = c :: more) (hmore : more ≠ []) : IsNumber (String.ofList more) := by
  obtain ⟨⟨-, hblank⟩, hcolon, hcomma⟩ := h
  rw [hw] at hblank hcolon hcomma
  refine ⟨⟨fun hempty => hmore ?_, ?_⟩, ?_, ?_⟩
  · rw [← String.toList_ofList (l := more), hempty, String.toList_empty]
  · rw [String.toList_ofList]
    exact (blankless_cons.1 hblank).2
  · rw [String.toList_ofList]
    exact fun h => hcolon (List.mem_cons_of_mem _ h)
  · rw [String.toList_ofList]
    exact fun h => hcomma (List.mem_cons_of_mem _ h)

/-- A reference label is a word. -/
lemma refField_eq_some_iff {s rest : List Char} {w : String} :
    refField s = some (w, rest) ↔
      s = w.toList ++ rest ∧ IsWord w ∧ ¬ BreaksInto w.toList rest ∧
        (rest = [] ∨ atBlank rest = true) := by
  rw [refField, token_eq_some_iff, passes_atBlank_iff, IsWord]
  tauto

lemma stepNumber_eq_some_iff {s rest : List Char} {w : String} :
    stepNumber s = some (w, rest) ↔
      s = w.toList ++ rest ∧ IsNumber w ∧ ¬ BreaksInto w.toList rest ∧
        (rest = [] ∨ endsStepNumber rest = true) := by
  rw [stepNumber, token_eq_some_iff, passes_endsStepNumber_iff, IsNumber, IsWord]
  tauto

lemma symbol_eq_some_iff {s rest : List Char} {w : String} :
    symbol s = some (w, rest) ↔
      s = w.toList ++ rest ∧ IsSymbol w ∧ ¬ BreaksInto w.toList rest ∧
        (rest = [] ∨ atBlank rest = true) := by
  have hstart (h : s = w.toList ++ rest) (hw : w ≠ "") :
      startsWith '$' s = startsWith '$' w.toList := by
    obtain ⟨c, more, hc⟩ := List.exists_cons_of_ne_nil (mt String.toList_eq_nil_iff.1 hw)
    rw [h, hc]
    rfl
  rw [symbol, IsSymbol]
  split
  next hdollar =>
    refine ⟨fun h => (by cases h), ?_⟩
    rintro ⟨h, ⟨hw, hno⟩, -⟩
    rw [hstart h hw.1, hno] at hdollar
    cases hdollar
  next hdollar =>
    rw [← refField, refField_eq_some_iff]
    constructor
    · rintro ⟨h, hw, hend⟩
      refine ⟨h, ⟨hw, ?_⟩, hend⟩
      rw [← hstart h hw.1]
      exact Bool.eq_false_iff.2 hdollar
    · rintro ⟨h, ⟨hw, -⟩, hend⟩
      exact ⟨h, hw, hend⟩

/-! ### Repetition -/

lemma many_of_none {read : Reader α} {advances : Advances read} {s : List Char}
    (h : read s = none) : many read advances s = ([], s) := by
  rw [many]
  split
  · rfl
  next taken => rw [h] at taken; cases taken

lemma many_of_some {read : Reader α} {advances : Advances read} {s rest : List Char} {a : α}
    (h : read s = some (a, rest)) :
    many read advances s = (a :: (many read advances rest).1, (many read advances rest).2) := by
  rw [many]
  split
  next taken => rw [h] at taken; cases taken
  next taken =>
    rw [h] at taken
    cases taken
    rfl

/-- Values that are written one behind the other are read as often as there are values, if each
is read in front of what stands behind it and nothing is read behind the last. -/
lemma many_flatMap {read : Reader α} {advances : Advances read} {write : α → List Char}
    {xs : List α} {tail : List Char}
    (hread : ∀ pre a post, xs = pre ++ a :: post →
      read (write a ++ (post.flatMap write ++ tail)) = some (a, post.flatMap write ++ tail))
    (htail : read tail = none) :
    many read advances (xs.flatMap write ++ tail) = (xs, tail) := by
  induction xs with
  | nil => exact many_of_none htail
  | cons x xs ih =>
      have hx := hread [] x xs rfl
      rw [List.flatMap_cons, List.append_assoc, many_of_some hx,
        ih fun pre a post h => hread (x :: pre) a post (congrArg (x :: ·) h)]

/-- Behind a value that is written stands the next one with its mark, or what follows the last. -/
lemma exists_flatMap_append (mark : Char) (write : α → List Char) (xs : List α) (d : Char)
    (t : List Char) :
    ∃ e u, xs.flatMap (fun x => mark :: write x) ++ d :: t = e :: u ∧ (e = mark ∨ e = d) := by
  cases xs with
  | nil => exact ⟨d, t, rfl, .inr rfl⟩
  | cons x xs => exact ⟨mark, _, rfl, .inl rfl⟩

/-- If a value is read where it is written, a repetition reads what is written in a row. -/
lemma flatMap_many {read : Reader α} {advances : Advances read} {write : α → List Char}
    (hread : ∀ s a rest, read s = some (a, rest) → s = write a ++ rest) (s : List Char) :
    (many read advances s).1.flatMap write ++ (many read advances s).2 = s := by
  fun_induction many read advances s with
  | case1 s taken => rfl
  | case2 s a rest taken more final heq ih =>
      rw [heq] at ih
      rw [hread s a rest taken, List.flatMap_cons, List.append_assoc, ih]

/-- A repetition takes no more than the text has. -/
lemma length_flatMap_many {read : Reader α} (advances : Advances read)
    (write : α → List Char)
    (hread : ∀ s a rest, read s = some (a, rest) → (write a).length + rest.length ≤ s.length)
    (s : List Char) :
    ((many read advances s).1.flatMap write).length + (many read advances s).2.length ≤
      s.length := by
  fun_induction many read advances s with
  | case1 s taken => simp
  | case2 s a rest taken more final heq ih =>
      rw [heq] at ih
      have hstep := hread s a rest taken
      simp only [List.flatMap_cons, List.length_append] at ih ⊢
      omega

/-- What holds of every value that is read holds of all that a repetition takes. -/
lemma forall_mem_many {read : Reader α} {advances : Advances read} {P : α → Prop}
    (hread : ∀ s a rest, read s = some (a, rest) → P a) (s : List Char) :
    ∀ a ∈ (many read advances s).1, P a := by
  fun_induction many read advances s with
  | case1 s taken => simp
  | case2 s a rest taken more final heq ih =>
      rw [heq] at ih
      exact List.forall_mem_cons.2 ⟨hread s a rest taken, ih⟩

end ProofSheet.Reading
