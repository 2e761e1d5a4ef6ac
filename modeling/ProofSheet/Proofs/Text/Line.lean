import Mathlib.Tactic.Lemma
import ProofSheet.Text.Line

/-!
Counting the lines of a text.

* `length_splitLines_cons`: a character that is no line feed opens a line only where none follows;
* `lineCount_append`: **a passage without line feeds in front of a text adds no line**;
* `lineCount_eq_one`: a text without line feeds is one line;
* `lineFeed_not_mem_intercalate`: joining texts brings in no line feeds of its own.
-/

namespace ProofSheet.Text

/-- A character that is no line feed belongs to the line behind it, if there is one. -/
lemma length_splitLines_cons {c : Char} (h : c ≠ '\n') (s : List Char) :
    (splitLines (c :: s)).length = max 1 (splitLines s).length := by
  rw [splitLines.eq_def]
  split
  next heq => cases heq
  next heq => exact absurd (List.cons.inj heq).1 h
  next rest heq =>
    -- a carriage return goes with the line feed behind it, which is counted either way
    rw [(List.cons.inj heq).2, splitLines, List.length_cons]
    exact (Nat.max_eq_right (Nat.le_add_left 1 _)).symm
  next d rest _ _ heq =>
    rw [(List.cons.inj heq).2]
    cases splitLines rest with
    | nil => rfl
    | cons line more => exact (Nat.max_eq_right (Nat.le_add_left 1 _)).symm

lemma lineCount_eq (text : String) : lineCount text = max 1 (splitLines text.toList).length := by
  rw [lineCount, lines, List.length_map]

/-- **A passage without line feeds in front of a text adds no line** to it. -/
lemma lineCount_append {front : String} (h : '\n' ∉ front.toList) (text : String) :
    lineCount (front ++ text) = lineCount text := by
  have hchars (s : List Char) (hs : '\n' ∉ s) :
      max 1 (splitLines (s ++ text.toList)).length = max 1 (splitLines text.toList).length := by
    induction s with
    | nil => rfl
    | cons c s ih =>
        obtain ⟨hc, hs⟩ := List.ne_and_not_mem_of_not_mem_cons hs
        rw [List.cons_append, length_splitLines_cons hc.symm, ih hs]
        exact Nat.max_eq_right (Nat.le_max_left 1 _)
  rw [lineCount_eq, String.toList_append, hchars _ h, ← lineCount_eq]

/-- A text without line feeds is one line. -/
lemma lineCount_eq_one {text : String} (h : '\n' ∉ text.toList) : lineCount text = 1 := by
  rw [← String.append_empty (s := text), lineCount_append h]
  rfl

/-- Texts without line feeds stay so with a separator without line feeds between them. -/
lemma lineFeed_not_mem_intercalate {separator : String} (hseparator : '\n' ∉ separator.toList)
    {texts : List String} (h : ∀ text ∈ texts, '\n' ∉ text.toList) :
    '\n' ∉ (separator.intercalate texts).toList := by
  induction texts with
  | nil => simp
  | cons first more ih =>
      obtain ⟨hfirst, hmore⟩ := List.forall_mem_cons.1 h
      cases more with
      | nil => rwa [String.intercalate_singleton]
      | cons second more =>
          rw [String.intercalate_cons_cons, String.toList_append, String.toList_append]
          simp only [List.mem_append, not_or]
          exact ⟨⟨hfirst, hseparator⟩, ih hmore⟩

end ProofSheet.Text
