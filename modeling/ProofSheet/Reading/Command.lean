import ProofSheet.Command.Basic
import ProofSheet.Reading.Blank
import ProofSheet.Text.WhiteSpace

/-!
Reading a command: its keyword, its arguments with blanks between them, and a semicolon.

* `word`, `mathSymbol`, `path`, `stepWord`: the arguments of commands;
* `databaseCommand`, `loadCommand`, `sheetCommand`: the commands without their semicolon;
* `Command.ofText?`: the one command that a text holds.

A word may hold white space that is no blank of the grammar; labels, step numbers and paths are
kept without such white space at their ends.
-/

namespace ProofSheet.Reading

/-! ### Arguments -/

/-- Where a word ends: at a blank, a semicolon or a square bracket. -/
def endsWord (s : List Char) : Bool :=
  atBlank s || startsWith ';' s || startsWith '[' s || startsWith ']' s

/-- A word. -/
def word : Reader String :=
  token endsWord

/-- Where a math symbol of a command ends: at a blank or a semicolon. -/
def endsMathSymbol (s : List Char) : Bool :=
  atBlank s || startsWith ';' s

/-- A math symbol of a command, which does not begin with a dollar sign. -/
def mathSymbol : Reader String := fun s =>
  if startsWith '$' s then none else token endsMathSymbol s

/-- A path: everything up to the semicolon. -/
def path : Reader String :=
  token (startsWith ';')

/-- Where a step number of a command ends: at a blank, a semicolon, a comma or an arrow. -/
def endsStepWord (s : List Char) : Bool :=
  atBlank s || startsWith ';' s || startsWith ',' s || (expect "=>" s).isSome

/-- A step number of a command. -/
def stepWord : Reader String :=
  token endsStepWord

theorem advances_mathSymbol : Advances mathSymbol := by
  intro s a rest h
  simp only [mathSymbol] at h
  split at h
  · simp at h
  · exact advances_token endsMathSymbol s a rest h

/-- A math symbol behind blanks. -/
def nextMathSymbol : Reader String := fun s => do
  mathSymbol (← blanks? s)

theorem advances_nextMathSymbol : Advances nextMathSymbol := by
  intro s a rest h
  obtain ⟨t, ht, h⟩ := Option.bind_eq_some_iff.1 h
  have := length_blanks?_le ht
  have := advances_mathSymbol t a rest h
  omega

/-- The formula of a command: math symbols with blanks between them. -/
def commandFormula : Reader Formula := fun s => do
  let (first, s) ← mathSymbol s
  let (more, s) := many nextMathSymbol advances_nextMathSymbol s
  return (⟨first :: more⟩, s)

/-- A word behind blanks. -/
def nextWord : Reader String := fun s => do
  word (← blanks? s)

theorem advances_nextWord : Advances nextWord := by
  intro s a rest h
  obtain ⟨t, ht, h⟩ := Option.bind_eq_some_iff.1 h
  have := length_blanks?_le ht
  have := advances_token endsWord t a rest h
  omega

/-- Words with blanks between them, possibly none. -/
def words (s : List Char) : List String × List Char :=
  match word s with
  | none => ([], s)
  | some (first, s) =>
    let (more, s) := many nextWord advances_nextWord s
    (first :: more, s)

/-! ### Commands of the database -/

/-- The command that declares math symbols. -/
def symbolsCommand : Reader DatabaseCommand := fun s => do
  let s ← expect "symbol" s
  let (first, s) ← nextMathSymbol s
  let (more, s) := many nextMathSymbol advances_nextMathSymbol s
  return (.symbols (first :: more), s)

/-- A keyword, a label and a formula. -/
def labelledFormula (keyword : String) : Reader (String × Formula) := fun s => do
  let s ← expect keyword s
  let (label, s) ← nextWord s
  let (formula, s) ← commandFormula (← blanks? s)
  return ((Text.trim label, formula), s)

/-- The command that adds a logical hypothesis. -/
def logHypCommand : Reader DatabaseCommand := fun s => do
  let ((label, formula), s) ← labelledFormula "hyp" s
  return (.logHyp label formula, s)

/-- The command that adds an axiomatic assertion. -/
def axiomaticCommand : Reader DatabaseCommand := fun s => do
  let ((label, formula), s) ← labelledFormula "axiom" s
  return (.axiomatic label formula, s)

/-- The command that adds a theorem: its label, its hypotheses in square brackets, and its
formula. -/
def provableCommand : Reader DatabaseCommand := fun s => do
  let s ← expect "theorem" s
  let (label, s) ← nextWord s
  let s ← expect "[" (skipBlanks s)
  let (hyps, s) := words (skipBlanks s)
  let s ← expect "]" (skipBlanks s)
  let (formula, s) ← commandFormula (skipBlanks s)
  return (.provable (Text.trim label) hyps formula, s)

/-- A command of the database. -/
def databaseCommand : Reader DatabaseCommand := fun s =>
  symbolsCommand s <|> logHypCommand s <|> axiomaticCommand s <|> provableCommand s

/-! ### Commands of the sheet -/

/-- A path behind blanks. -/
def nextPath : Reader String := fun s => do
  let (path, s) ← path (← blanks? s)
  return (Text.trim path, s)

/-- The detail to print, behind blanks. -/
def nextDetail : Reader Detail := fun s => do
  let s ← blanks? s
  match expect "full" s with
  | some s => return (.full, s)
  | none => return (.headers, ← expect "headers" s)

/-- The command that prints the worksheet, by default its headers. -/
def displayCommand : Reader SheetCommand := fun s => do
  let s ← expect "show" s
  let (detail, s) := optional nextDetail s
  return (.display (detail.getD .headers), s)

/-- An old step number, an arrow and a new step number. -/
def renumberPair : Reader (String × String) := fun s => do
  let (old, s) ← stepWord s
  let s ← expect "=>" (skipBlanks s)
  let (new, s) ← stepWord (skipBlanks s)
  return ((Text.trim old, Text.trim new), s)

/-- A pair of step numbers behind a comma. -/
def nextRenumberPair : Reader (String × String) := fun s => do
  let s ← expect "," (skipBlanks s)
  renumberPair (skipBlanks s)

theorem advances_renumberPair : Advances renumberPair := by
  intro s a rest h
  simp only [renumberPair, bind, Option.bind_eq_some_iff] at h
  obtain ⟨⟨old, t⟩, ht, u, hu, ⟨new, v⟩, hv, h⟩ := h
  cases h
  simp only at hu
  have := advances_token endsStepWord s old t ht
  have := length_skipBlanks_le t
  have := length_of_expect hu
  have := length_skipBlanks_le u
  have := advances_token endsStepWord (skipBlanks u) new v hv
  simp only
  omega

theorem advances_nextRenumberPair : Advances nextRenumberPair := by
  intro s a rest h
  obtain ⟨t, ht, h⟩ := Option.bind_eq_some_iff.1 h
  have := length_skipBlanks_le s
  have := length_of_expect ht
  have := length_skipBlanks_le t
  have := advances_renumberPair (skipBlanks t) a rest h
  omega

/-- The command that renumbers steps. -/
def renumberCommand : Reader SheetCommand := fun s => do
  let s ← expect "renumber" s
  let (first, s) ← renumberPair (← blanks? s)
  let (more, s) := many nextRenumberPair advances_nextRenumberPair s
  return (.renumber ⟨first :: more⟩, s)

/-- The command that exports the worksheet, by default into the configured folder. -/
def exportCommand : Reader SheetCommand := fun s => do
  let s ← expect "export" s
  let (dir, s) := optional nextPath s
  return (.exportTo dir, s)

/-- A command of the sheet. -/
def sheetCommand : Reader SheetCommand := fun s =>
  displayCommand s <|> renumberCommand s <|> exportCommand s

/-! ### A text with one command -/

/-- The command that loads a worksheet, as a path. -/
def loadCommand : Reader String := fun s => do
  nextPath (← expect "load" s)

/-- A command of any kind. -/
def anyCommand : Reader Command := fun s =>
  match databaseCommand s with
  | some (command, s) => some (.database command, s)
  | none =>
    match loadCommand s with
    | some (path, s) => some (.load path, s)
    | none => (sheetCommand s).map fun (command, s) => (.sheet command, s)

end ProofSheet.Reading

namespace ProofSheet

open Reading in
/-- The command that a text holds, if the text is one command with its semicolon. -/
def Command.ofText? (text : String) : Option Command := do
  let (command, s) ← anyCommand (skipBlanks text.toList)
  let s ← expect ";" (skipBlanks s)
  if (skipBlanks s).isEmpty then some command else none

end ProofSheet
