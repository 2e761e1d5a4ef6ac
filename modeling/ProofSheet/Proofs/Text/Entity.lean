import ProofSheet.Text.Entity
import Mathlib.Data.List.Basic

/-!
Escaped text on a markup page.

* `unescape`: what a browser makes of the four entities, decoded from left to right;
* `unescape_escape_append`: **escaped text is read back**, whatever stands behind it;
* `MarkupFree`, `markupFree_escape`: it can neither begin nor end a tag, or the value of an
  attribute.
-/

namespace ProofSheet.Text

/-! ### Decoding -/

/-- A text with its entities decoded from left to right. An ampersand that begins none of them, like
every other character, stands for itself, and what is decoded is not decoded again. -/
def unescape : List Char → List Char
  | '&' :: 'a' :: 'm' :: 'p' :: ';' :: rest => '&' :: unescape rest
  | '&' :: 'l' :: 't' :: ';' :: rest => '<' :: unescape rest
  | '&' :: 'g' :: 't' :: ';' :: rest => '>' :: unescape rest
  | '&' :: 'q' :: 'u' :: 'o' :: 't' :: ';' :: rest => '"' :: unescape rest
  | c :: rest => c :: unescape rest
  | [] => []

lemma unescape_cons {c : Char} (h : c ≠ '&') (rest : List Char) :
    unescape (c :: rest) = c :: unescape rest := by
  rw [unescape.eq_def]
  split <;> simp_all

/-- The entity of a character is decoded, and decoding goes on behind it. -/
lemma unescape_entity_append (c : Char) (rest : List Char) :
    unescape (entity c ++ rest) = c :: unescape rest := by
  rw [entity.eq_def]
  split
  · rfl
  · rfl
  · rfl
  · rfl
  next hamp _ _ _ => exact unescape_cons hamp rest

/-- **Escaped text is read back**, and what stands behind it is read by itself. -/
lemma unescape_escape_append (text : String) (rest : List Char) :
    unescape ((escape text).toList ++ rest) = text.toList ++ unescape rest := by
  rw [escape, String.toList_ofList]
  induction text.toList with
  | nil => rfl
  | cons c s ih =>
      rw [List.flatMap_cons, List.append_assoc, unescape_entity_append, ih, List.cons_append]

lemma unescape_escape (text : String) : unescape (escape text).toList = text.toList := by
  have h := unescape_escape_append text []
  rwa [List.append_nil, unescape, List.append_nil] at h

/-! ### Markup -/

/-- Neither an angle bracket nor a quotation mark is among the characters. -/
def MarkupFree (s : List Char) : Prop :=
  ∀ c ∈ s, c ≠ '<' ∧ c ≠ '>' ∧ c ≠ '"'

instance (s : List Char) : Decidable (MarkupFree s) :=
  List.decidableBAll _ s

lemma markupFree_append {s t : List Char} :
    MarkupFree (s ++ t) ↔ MarkupFree s ∧ MarkupFree t :=
  List.forall_mem_append

lemma markupFree_entity (c : Char) : MarkupFree (entity c) := by
  rw [entity.eq_def]
  split
  · decide
  · decide
  · decide
  · decide
  next hlt hgt hquot => exact List.forall_mem_singleton.2 ⟨hlt, hgt, hquot⟩

/-- **Escaped text holds no markup.** -/
lemma markupFree_escape (text : String) : MarkupFree (escape text).toList := by
  rw [escape, String.toList_ofList]
  intro d hd
  obtain ⟨c, -, hc⟩ := List.mem_flatMap.1 hd
  exact markupFree_entity c d hc

/-- An entity that stood in the text itself comes back as it was. -/
example : escape "&lt;\"" = "&amp;lt;&quot;" ∧
    unescape "&amp;lt;&quot;".toList = "&lt;\"".toList := by decide

end ProofSheet.Text
