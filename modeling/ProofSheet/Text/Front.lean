/-!
The front of a text.

* `behind?`: what stands behind a passage at the front of a text;
* `behind?_eq_some_iff`: the passage and what stands behind it make up the text.
-/

namespace ProofSheet.Text

/-- What stands behind `front` in a text that begins with it. -/
def behind? (front s : List Char) : Option (List Char) :=
  front.isPrefixOf? s

theorem behind?_eq_some_iff {front s rest : List Char} :
    behind? front s = some rest ↔ s = front ++ rest := by
  induction front generalizing s with
  | nil => exact ⟨fun h => Option.some.inj h, fun h => congrArg some h⟩
  | cons c front ih =>
    cases s with
    | nil => exact ⟨nofun, nofun⟩
    | cons d s =>
      have hstep : behind? (c :: front) (d :: s) = if c == d then behind? front s else none := rfl
      rw [hstep]
      by_cases h : c = d
      · subst h
        simpa using ih
      · simp [h, Ne.symm h]

end ProofSheet.Text
