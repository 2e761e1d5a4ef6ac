/-!
Text from bytes. Bytes that are no UTF-8 are read all the same: a replacement character stands for
every stretch of them that begins a character and breaks off, and for every byte that begins none.

* `Utf8.Begun`, `Utf8.step`: a character that has begun, and one more byte;
* `Utf8.decodeFrom`, `Utf8.decode`: the characters of all bytes.
-/

namespace ProofSheet.Text.Utf8

/-- The character that stands for bytes that are none. -/
def replacement : Char := '\ufffd'

/-- A character that has begun: the number that its bytes make up so far, how many bytes come behind
the next one, and the bounds of the next one. -/
structure Begun where
  value : Nat
  owed : Nat
  low : Nat
  high : Nat
  /-- No byte of ASCII goes on with a character. -/
  ascii_lt : 0x80 ≤ low
  /-- The next byte makes up for a number that is zero so far, so that no character has a longer
  encoding than it needs. -/
  pos : value = 0 → 0 < owed ∧ 0x80 < low

/-- The character that begins with a byte, if it has more bytes than that. The bounds of the second
byte leave out the numbers that have shorter encodings, and those of no character. -/
def begin? (byte : Nat) : Option Begun :=
  if h : 0xC2 ≤ byte ∧ byte ≤ 0xDF then
    some ⟨byte - 0xC0, 0, 0x80, 0xBF, by omega, by omega⟩
  else if h : 0xE0 ≤ byte ∧ byte ≤ 0xEF then
    some ⟨byte - 0xE0, 1, if byte = 0xE0 then 0xA0 else 0x80, if byte = 0xED then 0x9F else 0xBF,
      by split <;> omega, by split <;> omega⟩
  else if h : 0xF0 ≤ byte ∧ byte ≤ 0xF4 then
    some ⟨byte - 0xF0, 2, if byte = 0xF0 then 0x90 else 0x80, if byte = 0xF4 then 0x8F else 0xBF,
      by split <;> omega, by split <;> omega⟩
  else none

/-- A byte where no character has begun: the characters that it completes, and the one that it
begins. -/
def first (byte : Nat) : List Char × Option Begun :=
  if byte < 0x80 then ([Char.ofNat byte], none)
  else
    match begin? byte with
    | some begun => ([], some begun)
    | none => ([replacement], none)

/-- One more byte: the characters that it completes, and the one that has begun behind it. A byte
that does not go on with what has begun is read as a first one. -/
def step : Option Begun → Nat → List Char × Option Begun
  | none, byte => first byte
  | some begun, byte =>
    if h : begun.low ≤ byte ∧ byte ≤ begun.high then
      match begun.owed with
      | 0 => ([Char.ofNat (begun.value * 64 + (byte - 0x80))], none)
      | owed + 1 =>
        ([], some ⟨begun.value * 64 + (byte - 0x80), owed, 0x80, 0xBF, by omega,
          by have := begun.pos; omega⟩)
    else
      let (chars, next) := first byte
      (replacement :: chars, next)

/-- The characters of bytes, behind what has begun. -/
def decodeFrom : Option Begun → List UInt8 → List Char
  | none, [] => []
  | some _, [] => [replacement]
  | begun, byte :: bytes =>
    let (chars, next) := step begun byte.toNat
    chars ++ decodeFrom next bytes

/-- The text of bytes. -/
def decode (bytes : List UInt8) : String :=
  String.ofList (decodeFrom none bytes)

end ProofSheet.Text.Utf8
