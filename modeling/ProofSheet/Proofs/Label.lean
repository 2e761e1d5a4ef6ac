import ProofSheet.Label
import ProofSheet.Proofs.Reading.Token
import ProofSheet.Proofs.Text.WhiteSpace

/-!
Well-formed labels and the two kinds of white space.

* `toNat_of_isLabelChar`: the alphabet of labels, as code points;
* `isWord_of_isWellFormed`: a well-formed label is a word of a worksheet, so no blank of the grammar
  is in it;
* `trim_of_isWellFormed`: it begins and ends with no white space of any other kind.
-/

namespace ProofSheet.Label

open Reading

variable {c : Char} {label : String}

/-! ### The alphabet -/

lemma toNat_of_isAlphanum (hc : c.isAlphanum = true) : 48 ≤ c.toNat ∧ c.toNat ≤ 122 := by
  have hcases : (c.isUpper || c.isLower || c.isDigit) = true := hc
  rw [Bool.or_eq_true, Bool.or_eq_true] at hcases
  rcases hcases with (h | h) | h
  · have hrange : 65 ≤ c.toNat ∧ c.toNat ≤ 90 := of_decide_eq_true h
    omega
  · have hrange : (decide (97 ≤ c.toNat) && decide (c.toNat ≤ 122)) = true := h
    rw [Bool.and_eq_true, decide_eq_true_eq, decide_eq_true_eq] at hrange
    omega
  · have hrange : (decide (48 ≤ c.toNat) && decide (c.toNat ≤ 57)) = true := h
    rw [Bool.and_eq_true, decide_eq_true_eq, decide_eq_true_eq] at hrange
    omega

/-- The characters of labels lie between the hyphen and the letter z. -/
lemma toNat_of_isLabelChar (hc : isLabelChar c = true) : 45 ≤ c.toNat ∧ c.toNat ≤ 122 := by
  rw [isLabelChar, Bool.or_eq_true, Bool.or_eq_true, Bool.or_eq_true, beq_iff_eq, beq_iff_eq,
    beq_iff_eq] at hc
  rcases hc with ((h | rfl) | rfl) | rfl
  · obtain ⟨hlow, hhigh⟩ := toNat_of_isAlphanum h
    omega
  · decide
  · decide
  · decide

lemma isWhiteSpace_of_isLabelChar (hc : isLabelChar c = true) : Text.isWhiteSpace c = false := by
  obtain ⟨hlow, hhigh⟩ := toNat_of_isLabelChar hc
  rw [Text.isWhiteSpace, List.any_eq_false]
  simp only [Text.whiteSpaceRanges, List.forall_mem_cons, Bool.and_eq_true, decide_eq_true_eq]
  simp only [List.not_mem_nil, false_implies, implies_true, and_true]
  omega

/-! ### Labels over it -/

section WellFormed

variable (h : isWellFormed label = true)
include h

lemma isLabelChar_of_mem (hc : c ∈ label.toList) : isLabelChar c = true := by
  rw [isWellFormed, Bool.and_eq_true, List.all_eq_true] at h
  exact h.2 c hc

lemma not_mem_of_isWellFormed (hc : isLabelChar c = false) : c ∉ label.toList :=
  fun hmem => Bool.false_ne_true (hc.symm.trans (isLabelChar_of_mem h hmem))

/-- A well-formed label is a word. -/
lemma isWord_of_isWellFormed : IsWord label := by
  refine ⟨?_, fun c hc => ⟨Bool.eq_false_iff.2 fun hspace => ?_, ?_⟩⟩
  · rintro rfl
    exact absurd h (by decide)
  · rw [isSpace, Bool.or_eq_true, beq_iff_eq, beq_iff_eq] at hspace
    rcases hspace with rfl | rfl
    · exact not_mem_of_isWellFormed h (by decide) hc
    · exact not_mem_of_isWellFormed h (by decide) hc
  · rintro rfl
    exact not_mem_of_isWellFormed h (by decide) hc

/-- There is no white space at the ends of a well-formed label. -/
lemma trim_of_isWellFormed : Text.trim label = label :=
  Text.trim_eq_self fun _ hc => isWhiteSpace_of_isLabelChar (isLabelChar_of_mem h hc)

end WellFormed

end ProofSheet.Label
