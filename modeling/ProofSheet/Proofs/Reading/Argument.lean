import ProofSheet.Proofs.Reading.Confinement
import ProofSheet.Proofs.Reading.Formula
import ProofSheet.Reading.Command

/-!
The arguments of commands: words, math symbols, paths and step numbers.  What ends them looks
ahead, for a line feed behind a carriage return and for the head of an arrow, so that a token is
more than a class of characters.

* `LooksAhead`: the stops that nothing but these two characters can surprise;
* `IsToken`, `IsArgument`: a token by itself, and a token as commands keep it, without white space
  at its ends, which may leave nothing of it;
* `token_of_isToken`, `isToken_of_token`, `isArgument_of_token`: every token that is read is one,
  and it is read back in front of every other character that ends it;
* `many_spaced`: tokens with one space in front of each are read back.
-/

namespace ProofSheet.Reading

/-! ### Stops that look ahead -/

/-- A character that can join what is in front of it: a line feed joins a carriage return, and the
head of an arrow its shaft. -/
def joins (c : Char) : Bool :=
  c == '\n' || c == '>'

/-- The stop finds its places by what begins there, and only a character that joins can complete
what does not end in front of it. -/
structure LooksAhead (stop : List Char → Bool) : Prop where
  grow : ∀ s t, stop s = true → stop (s ++ t) = true
  behind : ∀ c s d t, joins d = false → stop (c :: (s ++ d :: t)) = stop (c :: s)

variable {stop stop' : List Char → Bool} {s t v w rest : List Char} {c d : Char} {x : String}

lemma lineFeed_ne_of_joins (h : joins d = false) : d ≠ '\n' := by
  rintro rfl
  cases h

lemma head_ne_of_joins (h : joins d = false) : d ≠ '>' := by
  rintro rfl
  cases h

lemma looksAhead_startsWith (c : Char) : LooksAhead (startsWith c) where
  grow s t h := by
    cases s with
    | nil => cases h
    | cons d s => exact h
  behind _ _ _ _ _ := rfl

lemma looksAhead_atBlank : LooksAhead atBlank where
  grow s t h := by
    cases s with
    | nil => cases h
    | cons c s =>
        refine Bool.of_not_eq_false fun hnot => ?_
        obtain ⟨hc, hbreak⟩ := atBlank_cons_eq_false_iff.1 hnot
        refine Bool.false_ne_true ((atBlank_cons_eq_false_iff.2 ⟨hc, fun hs => hbreak ?_⟩) ▸ h)
        exact ⟨hs.1, by rw [List.append_eq, List.head?_append, hs.2]; rfl⟩
  behind c s d t hd := by
    have hhead : (s ++ d :: t).head? = some '\n' ↔ s.head? = some '\n' := by
      cases s with
      | nil => simp [lineFeed_ne_of_joins hd]
      | cons e s => rfl
    rw [Bool.eq_iff_iff, ← Bool.not_eq_false, ← Bool.not_eq_false, atBlank_cons_eq_false_iff,
      atBlank_cons_eq_false_iff, hhead]

lemma looksAhead_arrow : LooksAhead fun s => (expect "=>" s).isSome where
  grow s t h := by
    obtain ⟨r, hr⟩ := Option.isSome_iff_exists.1 h
    rw [expect_eq_some_iff.1 hr, List.append_assoc]
    exact Option.isSome_iff_exists.2 ⟨r ++ t, expect_eq_some_iff.2 rfl⟩
  behind c s d t hd := by
    rw [Bool.eq_iff_iff, Option.isSome_iff_exists, Option.isSome_iff_exists]
    simp only [expect_eq_some_iff]
    cases s with
    | nil =>
        refine iff_of_false ?_ ?_
        · rintro ⟨r, hr⟩
          exact head_ne_of_joins hd (List.cons.inj (List.cons.inj hr).2).1
        · rintro ⟨r, hr⟩
          cases (List.cons.inj hr).2
    | cons e s =>
        have hcons (r u : List Char) :
            c :: e :: u = "=>".toList ++ r ↔ c = '=' ∧ e = '>' ∧ u = r := by
          rw [show "=>".toList = ['=', '>'] from rfl]
          simp
        simp only [List.cons_append, hcons, exists_and_left, exists_eq', and_true]

lemma LooksAhead.or (h : LooksAhead stop) (h' : LooksAhead stop') :
    LooksAhead fun s => stop s || stop' s where
  grow s t hs := by
    rw [Bool.or_eq_true] at hs ⊢
    exact hs.imp (h.grow s t) (h'.grow s t)
  behind c s d t hd := by rw [h.behind c s d t hd, h'.behind c s d t hd]

lemma looksAhead_endsMathSymbol : LooksAhead endsMathSymbol :=
  looksAhead_atBlank.or (looksAhead_startsWith ';')

lemma looksAhead_endsWord : LooksAhead endsWord :=
  (looksAhead_endsMathSymbol.or (looksAhead_startsWith '[')).or (looksAhead_startsWith ']')

lemma looksAhead_endsStepWord : LooksAhead endsStepWord :=
  (looksAhead_endsMathSymbol.or (looksAhead_startsWith ',')).or looksAhead_arrow

/-! ### Tokens by themselves -/

lemma passes_append :
    Passes stop (v ++ w) rest ↔ Passes stop v (w ++ rest) ∧ Passes stop w rest := by
  induction v with
  | nil => simp [Passes]
  | cons c v ih => rw [List.cons_append, Passes, Passes, ih, List.append_assoc, and_assoc]

/-- What passes in front of a text passes by itself. -/
lemma LooksAhead.passes_nil (h : LooksAhead stop) (hw : Passes stop w rest) :
    Passes stop w [] := by
  induction w with
  | nil => trivial
  | cons c w ih =>
      refine ⟨Bool.eq_false_iff.2 fun hc => ?_, ih hw.2⟩
      have hgrown := h.grow _ rest hc
      rw [List.append_nil, List.cons_append, hw.1] at hgrown
      cases hgrown

/-- What passes by itself passes in front of every character that does not join. -/
lemma LooksAhead.passes_cons (h : LooksAhead stop) (hd : joins d = false)
    (hw : Passes stop w []) (t : List Char) : Passes stop w (d :: t) := by
  induction w with
  | nil => trivial
  | cons c w ih =>
      refine ⟨?_, ih hw.2⟩
      have hc := hw.1
      rwa [List.append_nil, ← h.behind c w d t hd] at hc

/-- A token by itself: not empty, and not ended inside. -/
def IsToken (stop : List Char → Bool) (x : String) : Prop :=
  x ≠ "" ∧ Passes stop x.toList []

/-- A token without the white space at its two ends, even if it had nothing else. -/
structure IsArgument (stop : List Char → Bool) (x : String) : Prop where
  passes : Passes stop x.toList []
  trim : Text.trim x = x

lemma IsArgument.isToken (h : IsArgument stop x) (hx : x ≠ "") : IsToken stop x :=
  ⟨hx, h.passes⟩

lemma isToken_of_token (h : LooksAhead stop) (hread : token stop s = some (x, rest)) :
    IsToken stop x := by
  obtain ⟨hx, -, hpasses, -⟩ := token_eq_some_iff.1 hread
  exact ⟨hx, h.passes_nil hpasses⟩

lemma isArgument_of_token (h : LooksAhead stop) (hread : token stop s = some (x, rest)) :
    IsArgument stop (Text.trim x) := by
  obtain ⟨-, -, hpasses, -⟩ := token_eq_some_iff.1 hread
  obtain ⟨front, back, hx, -⟩ := Text.exists_trimChars x.toList
  rw [hx, List.append_assoc, passes_append, passes_append] at hpasses
  refine ⟨?_, Text.trim_trim x⟩
  rw [Text.trim, String.toList_ofList]
  exact h.passes_nil hpasses.2.1

/-- A token is read back in front of what ends it. -/
lemma token_of_isToken (h : LooksAhead stop) (hx : IsToken stop x) (hd : joins d = false)
    (hstop : stop (d :: t) = true) :
    token stop (x.toList ++ d :: t) = some (x, d :: t) :=
  token_eq_some_iff.2 ⟨hx.1, rfl, h.passes_cons hd hx.2 t, .inr hstop⟩

/-! ### Blanks in front of tokens -/

/-- No blank is where a token begins that blanks would end. -/
lemma IsToken.atBlank_eq_false (hx : IsToken stop x) (h : LooksAhead stop)
    (hblank : ∀ s, atBlank s = true → stop s = true) (hd : joins d = false) (t : List Char) :
    atBlank (x.toList ++ d :: t) = false := by
  obtain ⟨c, more, hc⟩ := List.exists_cons_of_ne_nil (mt String.toList_eq_nil_iff.1 hx.1)
  have hpasses := h.passes_cons hd hx.2 t
  rw [hc] at hpasses ⊢
  refine Bool.eq_false_iff.2 fun hat => ?_
  exact Bool.false_ne_true (hpasses.1.symm.trans (hblank _ hat))

/-- No blank is where an argument begins that has something in it. -/
lemma IsArgument.atBlank_eq_false (hx : IsArgument stop x) (hne : x ≠ "") (rest : List Char) :
    atBlank (x.toList ++ rest) = false := by
  obtain ⟨c, more, hc⟩ := List.exists_cons_of_ne_nil (mt String.toList_eq_nil_iff.1 hne)
  have hchars : Text.trimChars x.toList = x.toList := by
    rw [← String.toList_ofList (l := Text.trimChars x.toList)]
    exact congrArg String.toList hx.trim
  have hwhite : Text.isWhiteSpace c = false := by
    refine Text.head?_trimChars (s := x.toList) ?_
    rw [hchars, hc]
    rfl
  rw [hc]
  -- the blanks are white space, and so is the carriage return in front of a line feed
  refine atBlank_cons_eq_false_iff.2 ⟨⟨?_, ?_⟩, ?_⟩
  · rw [isSpace, Bool.or_eq_false_iff, beq_eq_false_iff_ne, beq_eq_false_iff_ne]
    constructor <;> rintro rfl <;> cases hwhite
  · rintro rfl
    cases hwhite
  · rintro ⟨rfl, -⟩
    cases hwhite

lemma blanks?_space (h : atBlank s = false) : blanks? (' ' :: s) = some s := by
  have hskip : skipBlanks (' ' :: s) = skipBlanks s := rfl
  rw [blanks?, hskip, skipBlanks_eq_self h]
  rfl

/-- Behind a word stands the next one with a space between them, or what follows the last. -/
lemma exists_spaced_append (more : List String) (d : Char) (t : List Char) :
    ∃ e u, spaced more ++ d :: t = e :: u ∧ (e = ' ' ∨ e = d) :=
  exists_flatMap_append ' ' String.toList more d t

/-- Tokens with a space in front of each are read back, if each of them is read where it stands and
no blank is in front of what follows the last. -/
lemma many_spaced {read next : Reader String} (advances : Advances next) {xs : List String}
    (hnext : ∀ s, next s = (blanks? s).bind read)
    (hread : ∀ x ∈ xs, ∀ e u, e = ' ' ∨ e = d →
      atBlank (x.toList ++ e :: u) = false ∧ read (x.toList ++ e :: u) = some (x, e :: u))
    (hd : atBlank (d :: t) = false) :
    many next advances (spaced xs ++ d :: t) = (xs, d :: t) := by
  refine many_flatMap (fun pre x post hxs => ?_) ?_
  · obtain ⟨e, u, heu, he⟩ := exists_spaced_append post d t
    obtain ⟨hblank, hx⟩ := hread x (by simp [hxs]) e u he
    rw [List.cons_append, ← spaced, heu, hnext, blanks?_space hblank]
    exact hx
  · rw [hnext, blanks?, hd]
    rfl

end ProofSheet.Reading
