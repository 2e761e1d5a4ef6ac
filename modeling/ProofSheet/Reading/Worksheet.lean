import ProofSheet.Reading.Step
import ProofSheet.Worksheet.Draft

/-!
Reading a worksheet: a header line, statements that each begin at the start of a line and end
with one, and a footer.  Empty lines may stand anywhere between these.

* `headerLine`: the line that names the theorem;
* `worksheet`: the whole of a text;
* `WorksheetDraft.ofText?`: the draft that a text holds.
-/

namespace ProofSheet.Reading

/-! ### The header line -/

/-- What a field of the header line is about. -/
inductive HeaderKey
  | theoremLabel
  | locAfter

/-- A key as it is written, with its equals sign. -/
def HeaderKey.mark : HeaderKey → String
  | theoremLabel => "THEOREM="
  | locAfter => "LOC_AFTER="

/-- A field of the header line. -/
structure HeaderField where
  key : HeaderKey
  value : String

/-- The key at the front of a text. -/
def headerKey : Reader HeaderKey := fun s =>
  match expect HeaderKey.theoremLabel.mark s with
  | some rest => some (.theoremLabel, rest)
  | none => (expect HeaderKey.locAfter.mark s).map fun rest => (.locAfter, rest)

theorem headerKey_eq_some_iff {key : HeaderKey} {s rest : List Char} :
    headerKey s = some (key, rest) ↔ s = key.mark.toList ++ rest := by
  rw [headerKey]
  constructor
  · intro h
    split at h
    next u hu =>
      cases h
      exact expect_eq_some_iff.1 hu
    · obtain ⟨u, hu, h⟩ := Option.map_eq_some_iff.1 h
      cases h
      exact expect_eq_some_iff.1 hu
  · rintro rfl
    cases key with
    | theoremLabel => rw [expect_eq_some_iff.2 rfl]
    | locAfter =>
      -- the marks begin with different letters
      have hother : expect HeaderKey.theoremLabel.mark (HeaderKey.locAfter.mark.toList ++ rest) =
          none := rfl
      rw [hother, expect_eq_some_iff.2 rfl]
      rfl

/-- The value of a field: everything up to the next blank, possibly nothing. -/
def fieldValue (s : List Char) : String × List Char :=
  (String.ofList (takeUntil atBlank s), dropUntil atBlank s)

/-- A field behind spaces: its key and its value. -/
def nextField : Reader HeaderField := fun s => do
  let (key, s) ← headerKey (← spaces? s)
  let (value, s) := fieldValue s
  return (⟨key, value⟩, s)

theorem nextField_eq_some_iff {field : HeaderField} {s rest : List Char} :
    nextField s = some (field, rest) ↔
      ∃ t, spaces? s = some (field.key.mark.toList ++ t) ∧ fieldValue t = (field.value, rest) := by
  constructor
  · intro h
    obtain ⟨u, hu, h⟩ := Option.bind_eq_some_iff.1 h
    obtain ⟨⟨key, t⟩, hkey, h⟩ := Option.bind_eq_some_iff.1 h
    cases h
    exact ⟨t, hu.trans (congrArg some (headerKey_eq_some_iff.1 hkey)), rfl⟩
  · rintro ⟨t, hs, hvalue⟩
    have hkey : headerKey (field.key.mark.toList ++ t) = some (field.key, t) :=
      headerKey_eq_some_iff.2 rfl
    simp only [nextField, hs, hkey, hvalue, bind, Option.bind_some, pure]

theorem advances_nextField : Advances nextField := by
  intro s field rest h
  obtain ⟨t, hs, hvalue⟩ := nextField_eq_some_iff.1 h
  have hrest : dropUntil atBlank t = rest := congrArg Prod.snd hvalue
  have hspaces := length_spaces?_le hs
  have hdrop := length_dropUntil_le atBlank t
  have hmark : 0 < field.key.mark.toList.length := by cases field.key <;> decide
  rw [List.length_append] at hspaces
  rw [hrest] at hdrop
  omega

/-- The fields of the header line, in order. -/
def headerLine : Reader (List HeaderField) := fun s => do
  let s ← expect "$(" s
  let s ← spaces? s
  let s ← expect "<MM>" s
  let s ← spaces? s
  let s ← expect "<PROOF_ASST>" s
  return many nextField advances_nextField s

/-- A value that was written; nothing counts as no value. -/
def written (value : String) : Option String :=
  if value = "" then none else some value

/-- The draft with one more field of the header line; a later field replaces an earlier one. -/
def withField (draft : WorksheetDraft) : HeaderField → WorksheetDraft
  | ⟨.theoremLabel, value⟩ => { draft with theoremLabel := written value }
  | ⟨.locAfter, value⟩ => { draft with locAfter := written value }

/-! ### The worksheet -/

/-- A statement behind empty lines, with the end of its line. -/
def nextStatement (size : Nat) : Reader (Option StepDraft) := fun s => do
  let (step, s) ← statement size (skipEmptyLines s)
  let s ← afterBreak? (skipSpaces s)
  return (step, s)

theorem advances_nextStatement (size : Nat) : Advances (nextStatement size) := by
  intro s a rest h
  simp only [nextStatement, bind, Option.bind_eq_some_iff] at h
  obtain ⟨⟨step, t⟩, ht, u, hu, h⟩ := h
  cases h
  simp only at hu
  have := length_skipEmptyLines_le s
  have := length_statement_le ht
  have := length_skipSpaces_le t
  have := length_afterBreak?_lt hu
  omega

/-- The draft that a text of `size` characters holds. -/
def worksheet (size : Nat) (s : List Char) : Option WorksheetDraft := do
  let (fields, s) ← headerLine (skipEmptyLines s)
  let s ← afterBreak? (skipSpaces s)
  let (statements, s) := many (nextStatement size) (advances_nextStatement size) s
  let s ← expect "$)" (skipEmptyLines s)
  if (skipBlanks s).isEmpty then
    return fields.foldl withField ⟨none, none, statements.filterMap id⟩
  else none

end ProofSheet.Reading

namespace ProofSheet

/-- The draft that a text holds, if the text follows the grammar of worksheets. -/
def WorksheetDraft.ofText? (text : String) : Option WorksheetDraft :=
  Reading.worksheet text.toList.length text.toList

end ProofSheet
