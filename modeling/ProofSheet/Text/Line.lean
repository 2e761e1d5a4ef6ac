/-!
The lines of a text.  A line ends at a line feed, a carriage return before that line feed
belongs to the ending, and an ending closes its line without opening a further one.

* `lines`: the lines in order, without their endings;
* `lineCount`: how many lines a text fills on a page, at least one;
* `quoted`: the text with a mark before each of its lines.
-/

namespace ProofSheet.Text

/-- The lines of a run of characters, without their endings. -/
def splitLines : List Char → List (List Char)
  | [] => []
  | '\n' :: rest => [] :: splitLines rest
  | '\r' :: '\n' :: rest => [] :: splitLines rest
  | c :: rest =>
    match splitLines rest with
    | [] => [[c]]
    | line :: more => (c :: line) :: more

/-- The lines of a text, without their endings. -/
def lines (text : String) : List String :=
  (splitLines text.toList).map String.ofList

/-- The number of lines that a text fills: the empty text fills one. -/
def lineCount (text : String) : Nat :=
  max 1 (lines text).length

/-- The text with `mark` before each line and a line feed between lines. -/
def quoted (mark text : String) : String :=
  "\n".intercalate ((lines text).map (mark ++ ·))

end ProofSheet.Text
