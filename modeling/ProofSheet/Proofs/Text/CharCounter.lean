import Mathlib.Data.String.Basic
import ProofSheet.Text.CharCounter

/-!
Counting characters by bytes.

* `Stretch`: a stretch of a text with what is in front of it, its caret in characters and its span
  in bytes;
* `CharCounter.Counts`: the invariant of a counter, that it is at the end of some front of its text,
  with the bytes and the characters of that front;
* `CharCounter.charOffset?_utf8Len`: **asked for the end of a front**, a counter that counts answers
  the characters of that front, wherever it is, and stands there;
* `CharCounter.carets?_span`: the carets of any stretches, in any order.
-/

namespace ProofSheet.Text

open String (utf8Len utf8Len_append)

variable {text front rest s : List Char}

/-! ### Stretches of a text -/

/-- A stretch of a text, and the characters in front of it. -/
structure Stretch where
  before : List Char
  own : List Char

namespace Stretch

variable {place : Stretch}

/-- The text has the stretch at its place. -/
def IsIn (place : Stretch) (text : List Char) : Prop :=
  ∃ rest, text = place.before ++ (place.own ++ rest)

/-- The place of the stretch, in characters. -/
def caret (place : Stretch) : Caret where
  currentChar := place.before.length + place.own.length
  lineStart := place.before.length

/-- The first byte of the stretch, and the one behind its last. -/
def span (place : Stretch) : Nat × Nat :=
  (utf8Len place.before, utf8Len (place.before ++ place.own))

/-- A caret that is counted from the start of its stretch is behind the characters of it. -/
lemma offset_caret (place : Stretch) : place.caret.offset = place.own.length + 1 := by
  simp only [Caret.offset, caret]
  omega

end Stretch

/-! ### Parts of a text -/

lemma splitAtByte?_zero (s : List Char) : splitAtByte? 0 s = some ([], s) := by
  cases s <;> rfl

lemma splitAtByte?_utf8Len (front rest : List Char) :
    splitAtByte? (utf8Len front) (front ++ rest) = some (front, rest) := by
  induction front with
  | nil => exact splitAtByte?_zero rest
  | cons c front ih =>
      obtain ⟨bytes, hbytes⟩ := Nat.exists_eq_add_of_lt c.utf8Size_pos
      have hlen : utf8Len (c :: front) = utf8Len front + bytes + 1 := by
        rw [String.utf8Len_cons]
        omega
      have hrest : utf8Len front + bytes + 1 - c.utf8Size = utf8Len front := by omega
      rw [hlen, List.cons_append, splitAtByte?, if_pos (by omega), hrest, ih]
      rfl

/-- The bytes of two fronts cut out what one has behind the other. -/
lemma slice?_utf8Len (front passed rest : List Char) :
    slice? (utf8Len front) (utf8Len (front ++ passed)) (front ++ (passed ++ rest)) =
      some passed := by
  have hstop : utf8Len (front ++ passed) - utf8Len front = utf8Len passed := by
    rw [utf8Len_append, Nat.add_sub_cancel_left]
  rw [slice?, if_neg (by rw [utf8Len_append]; omega), splitAtByte?_utf8Len, hstop]
  simp only [bind, Option.bind_some, splitAtByte?_utf8Len]
  rfl

/-- Of two fronts of a text the one with fewer bytes is a front of the other. -/
lemma exists_append_of_utf8Len_le {front' rest' : List Char}
    (h : front ++ rest = front' ++ rest') (hle : utf8Len front ≤ utf8Len front') :
    ∃ passed, front' = front ++ passed ∧ rest = passed ++ rest' := by
  obtain ⟨passed, hfront, hrest⟩ | ⟨passed, hfront, hrest⟩ := List.append_eq_append_iff.1 h
  · exact ⟨passed, hfront, hrest⟩
  · rw [hfront, utf8Len_append] at hle
    obtain rfl : passed = [] := String.utf8Len_eq_zero.1 (by omega)
    exact ⟨[], by rw [hfront, List.append_nil, List.append_nil], hrest.symm⟩

/-! ### The counter -/

namespace CharCounter

variable {counter : CharCounter}

/-- The counter is at the end of a front of its text. -/
def Counts (counter : CharCounter) : Prop :=
  ∃ front rest, counter.text = front ++ rest ∧ counter.bytes = utf8Len front ∧
    counter.chars = front.length

/-- A counter begins at the start of its text. -/
lemma counts_start (text : List Char) : Counts { text } :=
  ⟨[], text, rfl, rfl, rfl⟩

/-- The counter at the end of another front of its text. -/
def movedTo (counter : CharCounter) (front : List Char) : CharCounter :=
  { counter with bytes := utf8Len front, chars := front.length }

lemma counts_movedTo (h : counter.text = front ++ rest) : (counter.movedTo front).Counts :=
  ⟨front, rest, h, rfl, rfl⟩

/-- **A counter asked for the end of a front** answers the characters of that front and stands
there, whether it goes on or starts again. -/
lemma charOffset?_utf8Len (hcounts : counter.Counts) (h : counter.text = front ++ rest) :
    counter.charOffset? (utf8Len front) = some (front.length, counter.movedTo front) := by
  obtain ⟨passed, rest', htext, hbytes, hchars⟩ := hcounts
  rw [charOffset?]
  by_cases hback : utf8Len front < counter.bytes
  · have hslice : slice? 0 (utf8Len front) counter.text = some front :=
      h ▸ slice?_utf8Len [] front rest
    simp only [if_pos hback, bind, Option.bind_some, hslice, Nat.zero_add]
    rfl
  · obtain ⟨more, rfl, -⟩ :=
      exists_append_of_utf8Len_le (htext.symm.trans h) (hbytes ▸ Nat.le_of_not_lt hback)
    have hslice : slice? counter.bytes (utf8Len (passed ++ more)) counter.text = some more := by
      rw [hbytes, h, List.append_assoc]
      exact slice?_utf8Len passed more rest
    simp only [if_neg hback, bind, Option.bind_some, hslice, hchars, ← List.length_append]
    rfl

/-- The caret of a stretch is counted, and the counter stands behind the stretch. -/
lemma caret?_span (hcounts : counter.Counts) {place : Stretch} (h : place.IsIn counter.text) :
    counter.caret? place.span =
      some (place.caret, counter.movedTo (place.before ++ place.own)) := by
  obtain ⟨rest, h⟩ := h
  have hstop : (counter.movedTo place.before).text = place.before ++ place.own ++ rest := by
    rw [List.append_assoc]
    exact h
  rw [caret?, Stretch.span, charOffset?_utf8Len hcounts h]
  simp only [bind, Option.bind_some, charOffset?_utf8Len (counts_movedTo h) hstop,
    List.length_append]
  rfl

/-- **The carets of stretches**, counted one after the other. -/
lemma carets?_span {places : List Stretch} (hcounts : counter.Counts)
    (h : ∀ place ∈ places, place.IsIn counter.text) :
    counter.carets? (places.map Stretch.span) = some (places.map Stretch.caret) := by
  induction places generalizing counter with
  | nil => rfl
  | cons place places ih =>
      obtain ⟨hplace, hplaces⟩ := List.forall_mem_cons.1 h
      obtain ⟨rest, htext⟩ := hplace
      have hmoved : (counter.movedTo (place.before ++ place.own)).Counts :=
        counts_movedTo (by rw [htext, List.append_assoc])
      rw [List.map_cons, carets?, caret?_span hcounts ⟨rest, htext⟩]
      simp only [bind, Option.bind_some, ih hmoved hplaces]
      rfl

end CharCounter

/-- Two bytes for the first character and four for the last; the first stretch is asked for once
more when the counter has passed it. -/
example : let text := "é: 𝔸".toList
    let places : List Stretch := [⟨[], "é:".toList⟩, ⟨"é: ".toList, "𝔸".toList⟩,
      ⟨[], "é:".toList⟩]
    places.map Stretch.span = [(0, 3), (4, 8), (0, 3)] ∧
      CharCounter.carets? { text } (places.map Stretch.span) =
        some [⟨2, 0⟩, ⟨4, 3⟩, ⟨2, 0⟩] := by decide

end ProofSheet.Text
