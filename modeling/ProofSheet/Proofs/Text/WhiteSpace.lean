import ProofSheet.Text.WhiteSpace
import Mathlib.Tactic.Common

/-!
White space at the two ends of a text.

* `White`: nothing but white space;
* `trimChars_eq_nil_iff`, `exists_trimChars`: what is missing from a trimmed text is white space;
* `trimChars_concat`: a text that ends in another character is only trimmed in front;
* `head?_trimChars`, `trim_trim`: a trimmed text begins with another character, and trimming it
  again changes nothing;
* `trim_eq_self`: nor does trimming a text without white space.
-/

namespace ProofSheet.Text

/-- The characters are all white space. -/
def White (s : List Char) : Prop :=
  ∀ c ∈ s, isWhiteSpace c = true

variable {s t : List Char}

lemma white_nil : White [] :=
  fun _ h => nomatch h

lemma White.cons {c : Char} (h : White s) (hc : isWhiteSpace c = true) : White (c :: s) :=
  List.forall_mem_cons.2 ⟨hc, h⟩

lemma White.append (h : White s) (h' : White t) : White (s ++ t) :=
  List.forall_mem_append.2 ⟨h, h'⟩

lemma white_takeWhile (s : List Char) : White (s.takeWhile isWhiteSpace) :=
  List.all_eq_true.1 List.all_takeWhile

lemma White.dropWhile_append (h : White s) (t : List Char) :
    (s ++ t).dropWhile isWhiteSpace = t.dropWhile isWhiteSpace :=
  List.dropWhile_append_of_pos h

/-- A text that ends in a character other than white space is only trimmed in front. -/
lemma trimChars_concat {c : Char} (hc : isWhiteSpace c = false) (s : List Char) :
    trimChars (s ++ [c]) = s.dropWhile isWhiteSpace ++ [c] := by
  have hfront : (s ++ [c]).dropWhile isWhiteSpace = s.dropWhile isWhiteSpace ++ [c] := by
    rw [List.dropWhile_append]
    split_ifs with hempty
    · rw [List.isEmpty_iff.1 hempty, List.dropWhile_cons_of_neg (by simp [hc]), List.nil_append]
    · rfl
  rw [trimChars, hfront, List.reverse_append, List.reverse_singleton, List.singleton_append,
    List.dropWhile_cons_of_neg (by simp [hc]), List.reverse_cons, List.reverse_reverse]

/-- Only the white space at its two ends is missing from a trimmed text. -/
lemma exists_trimChars (s : List Char) :
    ∃ front back, s = front ++ trimChars s ++ back ∧ White front ∧ White back := by
  have hback := List.takeWhile_append_dropWhile (p := isWhiteSpace)
    (l := (s.dropWhile isWhiteSpace).reverse)
  refine ⟨s.takeWhile isWhiteSpace,
    ((s.dropWhile isWhiteSpace).reverse.takeWhile isWhiteSpace).reverse, ?_,
    white_takeWhile s, fun c hc => white_takeWhile _ c (List.mem_reverse.1 hc)⟩
  rw [trimChars, List.append_assoc, ← List.reverse_append, hback, List.reverse_reverse,
    List.takeWhile_append_dropWhile]

/-- A trimmed text begins with no white space. -/
lemma head?_trimChars {c : Char} (h : (trimChars s).head? = some c) : isWhiteSpace c = false := by
  have hprefix : trimChars s <+: s.dropWhile isWhiteSpace := by
    rw [← List.reverse_suffix, trimChars, List.reverse_reverse]
    exact List.dropWhile_suffix _
  obtain ⟨more, hmore⟩ := hprefix
  have hhead : (s.dropWhile isWhiteSpace).head? = some c := by
    rw [← hmore, List.head?_append, h]
    rfl
  have hnot := List.head?_dropWhile_not isWhiteSpace s
  rw [hhead] at hnot
  exact hnot

/-- A trimmed text ends in no white space. -/
lemma getLast?_trimChars {c : Char} (h : (trimChars s).getLast? = some c) :
    isWhiteSpace c = false := by
  rw [trimChars, List.getLast?_reverse] at h
  have hnot := List.head?_dropWhile_not isWhiteSpace (s.dropWhile isWhiteSpace).reverse
  rw [h] at hnot
  exact hnot

/-- A text without white space is left as it is. -/
lemma trim_eq_self {text : String} (h : ∀ c ∈ text.toList, isWhiteSpace c = false) :
    trim text = text := by
  have hnone {v : List Char} (hv : White v) (hsub : v ⊆ text.toList) : v = [] :=
    List.eq_nil_iff_forall_not_mem.2 fun c hc =>
      Bool.false_ne_true ((h c (hsub hc)).symm.trans (hv c hc))
  obtain ⟨front, back, htext, hfront, hback⟩ := exists_trimChars text.toList
  obtain rfl : front = [] := hnone hfront (htext ▸ by simp)
  obtain rfl : back = [] := hnone hback (htext ▸ by simp)
  rw [trim, ← String.toList_inj, String.toList_ofList]
  simpa using htext.symm

lemma trim_trim (text : String) : trim (trim text) = trim text := by
  rw [trim, trim, String.toList_ofList]
  rcases List.eq_nil_or_concat (trimChars text.toList) with h | ⟨front, c, h⟩
  · rw [h]
    rfl
  · rw [List.concat_eq_append] at h
    have hlast : isWhiteSpace c = false := getLast?_trimChars (by rw [h, List.getLast?_concat])
    rw [h, trimChars_concat hlast]
    cases front with
    | nil => rfl
    | cons d front =>
        have hhead : isWhiteSpace d = false := head?_trimChars (by rw [h]; rfl)
        rw [List.dropWhile_cons_of_neg (by simp [hhead])]

end ProofSheet.Text
