/-!
White space as Unicode counts it, and the two ways in which blank text is set aside.

* `isWhiteSpace`: the characters with the property `White_Space`;
* `words`: the maximal runs of other characters, in order;
* `trim`: a text without the white space at its two ends.

The grammars of worksheets and commands know fewer blanks than these: theirs are in
`Reading.Blank`.
-/

namespace ProofSheet.Text

/-- The code points with the Unicode property `White_Space`, as closed ranges. -/
def whiteSpaceRanges : List (Nat × Nat) :=
  [(0x0009, 0x000D), (0x0020, 0x0020), (0x0085, 0x0085), (0x00A0, 0x00A0), (0x1680, 0x1680),
    (0x2000, 0x200A), (0x2028, 0x2029), (0x202F, 0x202F), (0x205F, 0x205F), (0x3000, 0x3000)]

/-- The character is white space. -/
def isWhiteSpace (c : Char) : Bool :=
  whiteSpaceRanges.any fun range => range.1 ≤ c.toNat && c.toNat ≤ range.2

/-- The words of a text: its maximal runs of characters that are not white space. -/
def words (text : String) : List String :=
  ((text.toList.splitOnP isWhiteSpace).filter (!·.isEmpty)).map String.ofList

/-- A run of characters without the white space at its two ends. -/
def trimChars (s : List Char) : List Char :=
  ((s.dropWhile isWhiteSpace).reverse.dropWhile isWhiteSpace).reverse

/-- A text without the white space at its two ends. -/
def trim (text : String) : String :=
  String.ofList (trimChars text.toList)

end ProofSheet.Text
