import ProofSheet.Reading.Blank
import ProofSheet.Step.Draft

/-!
Reading the statements of a worksheet: hypothesis steps, derivation steps and comments.

* `stepNumber`, `refField`, `symbol`: the tokens of a step;
* `hypothesisHeader`, `derivationHeader`: the fields in front of the formula;
* `statement`: a whole statement; what begins like a comment is a comment, and what begins like
  a hypothesis step is one, so only the rest are derivation steps;
* `hypothesisHeader?`: a text that is the header of a hypothesis step and nothing else.
-/

namespace ProofSheet.Reading

/-! ### Tokens -/

/-- Where a step number ends: at a blank, a colon or a comma. -/
def endsStepNumber (s : List Char) : Bool :=
  atBlank s || startsWith ':' s || startsWith ',' s

/-- A step number. -/
def stepNumber : Reader String :=
  token endsStepNumber

/-- A reference label; every character but a blank may stand in it. -/
def refField : Reader String :=
  token atBlank

/-- A math symbol of a worksheet, which does not begin with a dollar sign. -/
def symbol : Reader String := fun s =>
  if startsWith '$' s then none else token atBlank s

theorem advances_symbol : Advances symbol := by
  intro s a rest h
  simp only [symbol] at h
  split at h
  · simp at h
  · exact advances_token atBlank s a rest h

/-! ### Formulas -/

/-- A math symbol behind a gap. -/
def nextSymbol : Reader String := fun s => do
  symbol (← gap? s)

theorem advances_nextSymbol : Advances nextSymbol := by
  intro s a rest h
  obtain ⟨t, ht, h⟩ := Option.bind_eq_some_iff.1 h
  have := length_gap?_le ht
  have := advances_symbol t a rest h
  omega

/-- A formula: symbols with gaps between them. -/
def formula : Reader Formula := fun s => do
  let (first, s) ← symbol s
  let (more, s) := many nextSymbol advances_nextSymbol s
  return (⟨first :: more⟩, s)

/-- The formula of a statement, behind a gap. -/
def nextFormula : Reader Formula := fun s => do
  formula (← gap? s)

theorem advances_formula : Advances formula := by
  intro s a rest h
  obtain ⟨⟨first, t⟩, ht, h⟩ := Option.bind_eq_some_iff.1 h
  cases h
  have := advances_symbol s first t ht
  have := length_many_le nextSymbol advances_nextSymbol t
  omega

theorem advances_nextFormula : Advances nextFormula := by
  intro s a rest h
  obtain ⟨t, ht, h⟩ := Option.bind_eq_some_iff.1 h
  have := length_gap?_le ht
  have := advances_formula t a rest h
  omega

/-! ### Headers -/

/-- The header of a hypothesis step: its number and its reference label. -/
def hypothesisHeader : Reader (String × Option String) := fun s => do
  let s ← expect "h" s
  let (step, s) ← stepNumber s
  let s ← expect "::" s
  let (ref, s) := optional refField s
  return ((step, ref), s)

/-- A step number behind a comma. -/
def nextNumber : Reader String := fun s => do
  stepNumber (← expect "," s)

theorem advances_nextNumber : Advances nextNumber := by
  intro s a rest h
  obtain ⟨t, ht, h⟩ := Option.bind_eq_some_iff.1 h
  have := length_of_expect ht
  have := advances_token endsStepNumber t a rest h
  omega

/-- Step numbers with commas between them, possibly none. -/
def stepNumbers (s : List Char) : List String × List Char :=
  match stepNumber s with
  | none => ([], s)
  | some (first, s) =>
    let (more, s) := many nextNumber advances_nextNumber s
    (first :: more, s)

/-- The header of a derivation step: its number, the numbers of the steps that it rests on, and
its reference label. -/
def derivationHeader : Reader (String × List String × Option String) := fun s => do
  let (step, s) ← stepNumber s
  let s ← expect ":" s
  let (hyps, s) := stepNumbers s
  let s ← expect ":" s
  let (ref, s) := optional refField s
  return ((step, hyps, ref), s)

theorem advances_hypothesisHeader : Advances hypothesisHeader := by
  intro s a rest h
  simp only [hypothesisHeader, bind, Option.bind_eq_some_iff] at h
  obtain ⟨t, ht, ⟨step, u⟩, hu, v, hv, h⟩ := h
  cases h
  have := length_of_expect ht
  have := advances_token endsStepNumber t step u hu
  have := length_of_expect hv
  have := length_optional_le (advances_token atBlank) v
  simp only [refField] at *
  omega

theorem length_stepNumbers_le (s : List Char) : (stepNumbers s).2.length ≤ s.length := by
  unfold stepNumbers
  split
  · exact Nat.le_refl _
  next first t taken =>
    have := advances_token endsStepNumber s first t taken
    have := length_many_le nextNumber advances_nextNumber t
    simp only
    omega

theorem advances_derivationHeader : Advances derivationHeader := by
  intro s a rest h
  simp only [derivationHeader, bind, Option.bind_eq_some_iff] at h
  obtain ⟨⟨step, t⟩, ht, u, hu, v, hv, h⟩ := h
  cases h
  have := advances_token endsStepNumber s step t ht
  have := length_of_expect hu
  have := length_stepNumbers_le u
  have := length_of_expect hv
  have := length_optional_le (advances_token atBlank) v
  simp only [refField] at *
  omega

/-- The fields of a text that is the header of a hypothesis step and nothing else. -/
def hypothesisHeader? (text : String) : Option (String × Option String) :=
  match hypothesisHeader text.toList with
  | some (fields, []) => some fields
  | _ => none

/-! ### Statements -/

/-- The place of a statement in a worksheet of `size` characters, where `s` is the text from the
statement on and `rest` the text behind it. -/
def caretOf (size : Nat) (s rest : List Char) : Caret where
  currentChar := size - rest.length
  lineStart := size - s.length

/-- A hypothesis step of a worksheet of `size` characters. -/
def hypothesisStatement (size : Nat) : Reader HypothesisDraft := fun s => do
  let ((step, ref), rest) ← hypothesisHeader s
  let (formula, rest) := optional nextFormula rest
  return ({ step, ref, formula, caret := caretOf size s rest }, rest)

/-- A derivation step of a worksheet of `size` characters. -/
def derivationStatement (size : Nat) : Reader DerivationDraft := fun s => do
  let ((step, hyps, ref), rest) ← derivationHeader s
  let (formula, rest) := optional nextFormula rest
  return ({ step, hyps, ref, formula, caret := caretOf size s rest }, rest)

/-- The text from the next line break on. -/
def skipLine (s : List Char) : List Char :=
  dropUntil atBreak s

/-- The text behind a line that continues a comment: such a line begins with a space. -/
def continuation : Reader Unit := fun s => do
  let s ← spaces? (← afterBreak? s)
  return ((), skipLine s)

theorem length_skipLine_le (s : List Char) : (skipLine s).length ≤ s.length :=
  length_dropUntil_le atBreak s

theorem advances_continuation : Advances continuation := by
  intro s a rest h
  simp only [continuation, bind, Option.bind_eq_some_iff] at h
  obtain ⟨t, ht, u, hu, h⟩ := h
  cases h
  have := length_afterBreak?_lt ht
  have := length_spaces?_le hu
  have := length_skipLine_le u
  omega

/-- A comment: an asterisk, the rest of its line, and the lines that continue it. -/
def comment (s : List Char) : Option (List Char) := do
  let s ← expect "*" s
  return (many continuation advances_continuation (skipLine s)).2

/-- A statement of a worksheet of `size` characters; a comment is no step. -/
def statement (size : Nat) : Reader (Option StepDraft) := fun s =>
  match comment s with
  | some rest => some (none, rest)
  | none =>
    match hypothesisStatement size s with
    | some (draft, rest) => some (some (.hypothesis draft), rest)
    | none => (derivationStatement size s).map fun (draft, rest) =>
        (some (.derivation draft), rest)

/-! ### Statements use up text -/

theorem length_comment_le {s rest : List Char} (h : comment s = some rest) :
    rest.length ≤ s.length := by
  obtain ⟨t, ht, h⟩ := Option.bind_eq_some_iff.1 h
  cases h
  have := length_of_expect ht
  have := length_skipLine_le t
  have := length_many_le continuation advances_continuation (skipLine t)
  omega

theorem advances_hypothesisStatement (size : Nat) : Advances (hypothesisStatement size) := by
  intro s a rest h
  simp only [hypothesisStatement, bind, Option.bind_eq_some_iff] at h
  obtain ⟨⟨fields, t⟩, ht, h⟩ := h
  cases h
  have := advances_hypothesisHeader s fields t ht
  have := length_optional_le advances_nextFormula t
  simp only
  omega

theorem advances_derivationStatement (size : Nat) : Advances (derivationStatement size) := by
  intro s a rest h
  simp only [derivationStatement, bind, Option.bind_eq_some_iff] at h
  obtain ⟨⟨fields, t⟩, ht, h⟩ := h
  cases h
  have := advances_derivationHeader s fields t ht
  have := length_optional_le advances_nextFormula t
  simp only
  omega

theorem length_statement_le {size : Nat} {s rest : List Char} {a : Option StepDraft}
    (h : statement size s = some (a, rest)) : rest.length ≤ s.length := by
  simp only [statement] at h
  split at h
  next t taken =>
    cases h
    exact length_comment_le taken
  · split at h
    next draft t taken =>
      cases h
      exact Nat.le_of_lt (advances_hypothesisStatement size s draft _ taken)
    · obtain ⟨⟨draft, t⟩, taken, h⟩ := Option.map_eq_some_iff.1 h
      cases h
      exact Nat.le_of_lt (advances_derivationStatement size s draft _ taken)

end ProofSheet.Reading
