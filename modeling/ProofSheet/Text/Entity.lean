/-!
Text inside a markup page: the four characters that could be read as markup are written as
entities, all others stand for themselves.
-/

namespace ProofSheet.Text

/-- How a character is written on a markup page. -/
def entity : Char → List Char
  | '&' => "&amp;".toList
  | '<' => "&lt;".toList
  | '>' => "&gt;".toList
  | '"' => "&quot;".toList
  | c => [c]

/-- The text as it is written on a markup page. -/
def escape (text : String) : String :=
  String.ofList (text.toList.flatMap entity)

end ProofSheet.Text
