import ProofSheet.Step.Draft

/-!
From bytes to characters.  A place in a text is found as a number of bytes, in UTF-8, and shown to
an editor as a number of characters.

* `splitAtByte?`, `slice?`: the parts of a text between two bytes, if characters begin there;
* `CharCounter`: counts the characters in front of one place after the other.  It goes on from the
  place that it was asked for last, and starts again for an earlier one;
* `CharCounter.carets?`: the carets of statements, counted one after the other.
-/

namespace ProofSheet.Text

/-! ### Parts of a text -/

/-- The characters in the first bytes of a text and the text behind them.  There is nothing if the
text is too short, or the last of the bytes is inside a character. -/
def splitAtByte? : (bytes : Nat) → List Char → Option (List Char × List Char)
  | 0, s => some ([], s)
  | _ + 1, [] => none
  | bytes + 1, c :: s =>
    if c.utf8Size ≤ bytes + 1 then
      (splitAtByte? (bytes + 1 - c.utf8Size) s).map fun (front, rest) => (c :: front, rest)
    else none

/-- The characters of a text from one byte up to another. -/
def slice? (start stop : Nat) (s : List Char) : Option (List Char) := do
  if stop < start then none
  else
    let (_, rest) ← splitAtByte? start s
    let (passed, _) ← splitAtByte? (stop - start) rest
    return passed

/-! ### The counter -/

/-- A place in a text, in bytes and in characters. -/
structure CharCounter where
  text : List Char
  bytes : Nat := 0
  chars : Nat := 0

namespace CharCounter

/-- The characters in front of a place that is given in bytes, and the counter at that place. -/
def charOffset? (counter : CharCounter) (place : Nat) : Option (Nat × CharCounter) := do
  let counter := if place < counter.bytes then { counter with bytes := 0, chars := 0 } else counter
  let passed ← slice? counter.bytes place counter.text
  let chars := counter.chars + passed.length
  return (chars, { counter with bytes := place, chars })

/-- The caret of a statement that is given by its first byte and the one behind its last. -/
def caret? (counter : CharCounter) (span : Nat × Nat) : Option (Caret × CharCounter) := do
  let (lineStart, counter) ← counter.charOffset? span.1
  let (currentChar, counter) ← counter.charOffset? span.2
  return ({ currentChar, lineStart }, counter)

/-- The carets of statements, counted one after the other. -/
def carets? (counter : CharCounter) : List (Nat × Nat) → Option (List Caret)
  | [] => some []
  | span :: spans => do
    let (caret, counter) ← counter.caret? span
    let carets ← counter.carets? spans
    return caret :: carets

end CharCounter

end ProofSheet.Text
