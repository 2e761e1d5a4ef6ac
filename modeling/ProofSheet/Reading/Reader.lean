import ProofSheet.Text.Front

/-!
Readers: functions that take a value off the front of a text.  A choice that has been made stays
made, and a repetition takes as much as it can.

* `Reader`, `Advances`: the type of readers, and those that never succeed on nothing;
* `expect`, `token`: a fixed word, and the non-empty run of characters before a stop;
* `optional`, `many`: a reader tried once, and a reader used as often as it succeeds.
-/

namespace ProofSheet.Reading

variable {α : Type}

/-- Takes a value off the front of a text and hands on the rest, or refuses the text. -/
abbrev Reader (α : Type) := List Char → Option (α × List Char)

/-- The reader uses up some of the text whenever it succeeds. -/
def Advances (read : Reader α) : Prop :=
  ∀ s a rest, read s = some (a, rest) → rest.length < s.length

/-! ### Words and tokens -/

/-- The text behind a fixed word. -/
def expect (word : String) (s : List Char) : Option (List Char) :=
  Text.behind? word.toList s

/-- The text begins with the character. -/
def startsWith (c : Char) (s : List Char) : Bool :=
  s.head? == some c

/-- The characters before the first place that `stop` accepts. -/
def takeUntil (stop : List Char → Bool) : List Char → List Char
  | [] => []
  | c :: rest => if stop (c :: rest) then [] else c :: takeUntil stop rest

/-- The text from the first place that `stop` accepts. -/
def dropUntil (stop : List Char → Bool) : List Char → List Char
  | [] => []
  | c :: rest => if stop (c :: rest) then c :: rest else dropUntil stop rest

/-- The run of characters before the first place that `stop` accepts, if it is not empty. -/
def token (stop : List Char → Bool) : Reader String := fun s =>
  match takeUntil stop s with
  | [] => none
  | c :: more => some (String.ofList (c :: more), dropUntil stop s)

theorem takeUntil_append_dropUntil (stop : List Char → Bool) (s : List Char) :
    takeUntil stop s ++ dropUntil stop s = s := by
  induction s with
  | nil => rfl
  | cons c rest ih => by_cases h : stop (c :: rest) <;> simp [takeUntil, dropUntil, h, ih]

theorem length_dropUntil_le (stop : List Char → Bool) (s : List Char) :
    (dropUntil stop s).length ≤ s.length := by
  have h := congrArg List.length (takeUntil_append_dropUntil stop s)
  rw [List.length_append] at h
  omega

theorem advances_token (stop : List Char → Bool) : Advances (token stop) := by
  intro s a rest h
  have hs := congrArg List.length (takeUntil_append_dropUntil stop s)
  simp only [token] at h
  split at h
  · simp at h
  next c more heq =>
    simp only [Option.some.injEq, Prod.mk.injEq] at h
    simp only [heq, h.2, List.length_append, List.length_cons] at hs
    omega

theorem expect_eq_some_iff {word : String} {s rest : List Char} :
    expect word s = some rest ↔ s = word.toList ++ rest :=
  Text.behind?_eq_some_iff

theorem length_of_expect {word : String} {s rest : List Char} (h : expect word s = some rest) :
    word.toList.length + rest.length = s.length := by
  rw [expect_eq_some_iff.1 h, List.length_append]

/-! ### Repetition -/

/-- The value if the reader succeeds, else none and the text as it stands. -/
def optional (read : Reader α) (s : List Char) : Option α × List Char :=
  match read s with
  | some (a, rest) => (some a, rest)
  | none => (none, s)

/-- The values that the reader takes, as often as it succeeds, and the rest. -/
def many (read : Reader α) (advances : Advances read) (s : List Char) : List α × List Char :=
  match _taken : read s with
  | none => ([], s)
  | some (a, rest) =>
    let (more, final) := many read advances rest
    (a :: more, final)
termination_by s.length
decreasing_by exact advances _ _ _ _taken

theorem length_many_le (read : Reader α) (advances : Advances read) (s : List Char) :
    (many read advances s).2.length ≤ s.length := by
  fun_induction many read advances s with
  | case1 s taken => exact Nat.le_refl _
  | case2 s a rest taken more final heq ih =>
    have := advances s a rest taken
    rw [heq] at ih
    simp only at ih ⊢
    omega

theorem length_optional_le {read : Reader α} (advances : Advances read) (s : List Char) :
    (optional read s).2.length ≤ s.length := by
  unfold optional
  split
  next a rest taken => exact Nat.le_of_lt (advances s a rest taken)
  · exact Nat.le_refl _

end ProofSheet.Reading
