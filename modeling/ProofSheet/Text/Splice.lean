import ProofSheet.Text.Front

/-!
Replacing inside a text.

* `replaceAll`: every occurrence of a pattern, from the left and without overlaps;
* `replaceFront`: a passage that stands at the front, with `replaceFront_append` for what stays.
-/

namespace ProofSheet.Text

/-- Every occurrence of `pattern` replaced, where the first `skip` characters belong to
an occurrence that was replaced already. -/
def spliceFrom (pattern replacement : List Char) : (skip : Nat) → List Char → List Char
  | _, [] => []
  | skip + 1, _ :: rest => spliceFrom pattern replacement skip rest
  | 0, c :: rest =>
    if pattern.isPrefixOf (c :: rest) then
      replacement ++ spliceFrom pattern replacement (pattern.length - 1) rest
    else c :: spliceFrom pattern replacement 0 rest

/-- The text with every occurrence of the non-empty `pattern` replaced, from the left and
without overlaps. -/
def replaceAll (text pattern replacement : String) : String :=
  String.ofList (spliceFrom pattern.toList replacement.toList 0 text.toList)

/-- The text with the passage `old` at its front replaced by `new`; a text that does not begin
with `old` becomes `new` alone. -/
def replaceFront (text old new : String) : String :=
  match behind? old.toList text.toList with
  | some rest => new ++ String.ofList rest
  | none => new

/-- What stands behind the passage stays. -/
theorem replaceFront_append (old rest new : String) :
    replaceFront (old ++ rest) old new = new ++ rest := by
  have h : behind? old.toList (old ++ rest).toList = some rest.toList :=
    behind?_eq_some_iff.2 String.toList_append
  simp only [replaceFront, h, String.ofList_toList]

end ProofSheet.Text
