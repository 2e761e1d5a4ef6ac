import ProofSheet.Reading.Reader

/-!
The blanks of worksheets and commands.  A space is a space or a tab.  A line break is a line
feed, alone or behind a carriage return; a carriage return by itself is no blank.

* `atSpace`, `atBreak`, `atBlank`: what a text begins with;
* `skipSpaces`, `skipBlanks`, `skipEmptyLines`: the text behind spaces, behind spaces and line
  breaks, and behind whole empty lines;
* `gap?`: the text behind a gap inside a statement, where a line break counts only if the next
  line begins with a space.
-/

namespace ProofSheet.Reading

/-! ### Where blanks are -/

/-- A space or a tab. -/
def isSpace (c : Char) : Bool :=
  c == ' ' || c == '\t'

/-- The text begins with a space or a tab. -/
def atSpace : List Char → Bool
  | [] => false
  | c :: _ => isSpace c

/-- The text behind a line break. -/
def afterBreak? : List Char → Option (List Char)
  | '\n' :: rest => some rest
  | '\r' :: '\n' :: rest => some rest
  | _ => none

/-- The text begins with a line break. -/
def atBreak (s : List Char) : Bool :=
  (afterBreak? s).isSome

/-- The text begins with a space, a tab or a line break. -/
def atBlank (s : List Char) : Bool :=
  atSpace s || atBreak s

/-- The text begins with a gap: a space, or a line break in front of a space. -/
def atGap (s : List Char) : Bool :=
  atSpace s || (afterBreak? s).any atSpace

/-! ### Skipping blanks -/

/-- The text behind its leading spaces and tabs. -/
def skipSpaces (s : List Char) : List Char :=
  s.dropWhile isSpace

/-- The text behind its leading spaces, tabs and line breaks. -/
def skipBlanks : List Char → List Char
  | [] => []
  | '\n' :: rest => skipBlanks rest
  | '\r' :: '\n' :: rest => skipBlanks rest
  | c :: rest => if isSpace c then skipBlanks rest else c :: rest

/-- The text behind its leading gap: spaces, tabs, and line breaks in front of a space. -/
def skipGap : List Char → List Char
  | [] => []
  | '\n' :: rest => if atSpace rest then skipGap rest else '\n' :: rest
  | '\r' :: '\n' :: rest => if atSpace rest then skipGap rest else '\r' :: '\n' :: rest
  | c :: rest => if isSpace c then skipGap rest else c :: rest

/-- The text behind the last empty line that ends before other characters; `line` is where the
line begins that is being read. -/
def skipEmptyFrom (line : List Char) : List Char → List Char
  | [] => line
  | '\n' :: rest => skipEmptyFrom rest rest
  | '\r' :: '\n' :: rest => skipEmptyFrom rest rest
  | c :: rest => if isSpace c then skipEmptyFrom line rest else line

/-- The text behind its leading empty lines, which hold only spaces and tabs. -/
def skipEmptyLines (s : List Char) : List Char :=
  skipEmptyFrom s s

/-! ### Blanks that have to be there -/

/-- The text behind one or more spaces or tabs. -/
def spaces? (s : List Char) : Option (List Char) :=
  if atSpace s then some (skipSpaces s) else none

/-- The text behind one or more spaces, tabs or line breaks. -/
def blanks? (s : List Char) : Option (List Char) :=
  if atBlank s then some (skipBlanks s) else none

/-- The text behind a gap. -/
def gap? (s : List Char) : Option (List Char) :=
  if atGap s then some (skipGap s) else none

/-! ### Skipping shortens -/

theorem length_skipSpaces_le (s : List Char) : (skipSpaces s).length ≤ s.length :=
  (List.dropWhile_suffix _).length_le

theorem length_skipBlanks_le (s : List Char) : (skipBlanks s).length ≤ s.length := by
  fun_induction skipBlanks s <;> simp only [List.length_cons, List.length_nil] <;> omega

theorem length_skipGap_le (s : List Char) : (skipGap s).length ≤ s.length := by
  fun_induction skipGap s <;> simp only [List.length_cons, List.length_nil] <;> omega

theorem length_skipEmptyFrom_le {line s : List Char} (h : s.length ≤ line.length) :
    (skipEmptyFrom line s).length ≤ line.length := by
  fun_induction skipEmptyFrom line s <;> simp_all only [List.length_cons, List.length_nil] <;> grind

theorem length_skipEmptyLines_le (s : List Char) : (skipEmptyLines s).length ≤ s.length :=
  length_skipEmptyFrom_le (Nat.le_refl _)

theorem length_afterBreak?_lt {s rest : List Char} (h : afterBreak? s = some rest) :
    rest.length < s.length := by
  unfold afterBreak? at h
  split at h
  · cases h
    exact Nat.lt_succ_self _
  · cases h
    exact Nat.lt_succ_of_lt (Nat.lt_succ_self _)
  · cases h

theorem length_spaces?_le {s rest : List Char} (h : spaces? s = some rest) :
    rest.length ≤ s.length := by
  simp only [spaces?] at h
  split at h
  · cases h
    exact length_skipSpaces_le s
  · simp at h

theorem length_blanks?_le {s rest : List Char} (h : blanks? s = some rest) :
    rest.length ≤ s.length := by
  simp only [blanks?] at h
  split at h
  · cases h
    exact length_skipBlanks_le s
  · simp at h

theorem length_gap?_le {s rest : List Char} (h : gap? s = some rest) :
    rest.length ≤ s.length := by
  simp only [gap?] at h
  split at h
  · cases h
    exact length_skipGap_le s
  · simp at h

end ProofSheet.Reading
