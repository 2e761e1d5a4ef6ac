import ProofSheet.Text.Utf8
import Mathlib.Tactic.Common

/-!
Text from bytes: what was encoded is read back, and bytes may be cut behind a semicolon before they
are read.

* `Utf8.first_cases`, `Utf8.step_cases`: what one more byte can do;
* `Utf8.decodeFrom_utf8EncodeChar_append`: the bytes of one character, with anything behind them;
* `Utf8.decode_toUTF8`: **the bytes of a text are read as the text**;
* `Utf8.decodeFrom_append_cons`: a byte of ASCII is a character of its own, whatever has begun in
  front of it;
* `Utf8.semicolon_not_mem_decodeFrom`: no other bytes are read as a semicolon.
-/

namespace ProofSheet.Text.Utf8

variable {begun : Begun} {byte owed : Nat} {bytes : List UInt8}

lemma decodeFrom_cons (begun : Option Begun) (byte : UInt8) (bytes : List UInt8) :
    decodeFrom begun (byte :: bytes) =
      (step begun byte.toNat).1 ++ decodeFrom (step begun byte.toNat).2 bytes := by
  cases begun <;> rfl

/-! ### One more byte -/

lemma first_of_lt (h : byte < 0x80) : first byte = ([Char.ofNat byte], none) :=
  if_pos h

lemma first_of_begin? (hle : 0x80 ≤ byte) (h : begin? byte = some begun) :
    first byte = ([], some begun) := by
  rw [first, if_neg (Nat.not_lt.2 hle), h]

/-- The last byte of a character. -/
lemma step_last (hlow : begun.low ≤ byte) (hhigh : byte ≤ begun.high) (howed : begun.owed = 0) :
    step (some begun) byte = ([Char.ofNat (begun.value * 64 + (byte - 0x80))], none) := by
  obtain ⟨value, owed, low, high, _, _⟩ := begun
  obtain rfl : owed = 0 := howed
  exact dif_pos ⟨hlow, hhigh⟩

/-- A byte of a character that more bytes belong to. -/
lemma step_more (hlow : begun.low ≤ byte) (hhigh : byte ≤ begun.high)
    (howed : begun.owed = owed + 1) :
    ∃ next : Begun, step (some begun) byte = ([], some next) ∧
      next.value = begun.value * 64 + (byte - 0x80) ∧ next.owed = owed ∧ next.low = 0x80 ∧
        next.high = 0xBF := by
  obtain ⟨value, owed', low, high, _, _⟩ := begun
  obtain rfl : owed' = owed + 1 := howed
  exact ⟨_, dif_pos ⟨hlow, hhigh⟩, rfl, rfl, rfl, rfl⟩

/-- A byte that does not go on with what has begun. -/
lemma step_other (h : ¬ (begun.low ≤ byte ∧ byte ≤ begun.high)) :
    step (some begun) byte = (replacement :: (first byte).1, (first byte).2) :=
  dif_neg h

/-- **What a first byte can do**: it is a character, it begins one, or it is neither. -/
lemma first_cases (byte : Nat) :
    (first byte = ([Char.ofNat byte], none)) ∨ (∃ begun, first byte = ([], some begun)) ∨
      first byte = ([replacement], none) := by
  by_cases hlt : byte < 0x80
  · exact .inl (first_of_lt hlt)
  · refine .inr ?_
    rw [first, if_neg hlt]
    cases begin? byte with
    | some begun => exact .inl ⟨begun, rfl⟩
    | none => exact .inr rfl

/-- **What a byte can do to a character that has begun**: more bytes are owed, or it completes the
character, whose number is too large for a semicolon, or the character breaks off. -/
lemma step_cases (begun : Begun) (byte : Nat) :
    (∃ next, step (some begun) byte = ([], some next)) ∨
      (∃ n, 0x40 ≤ n ∧ step (some begun) byte = ([Char.ofNat n], none)) ∨
        step (some begun) byte = (replacement :: (first byte).1, (first byte).2) := by
  by_cases hbounds : begun.low ≤ byte ∧ byte ≤ begun.high
  · cases howed : begun.owed with
    | zero =>
        have hpos := begun.pos
        exact .inr (.inl ⟨_, by omega, step_last hbounds.1 hbounds.2 howed⟩)
    | succ owed =>
        obtain ⟨next, hstep, -⟩ := step_more hbounds.1 hbounds.2 howed
        exact .inl ⟨next, hstep⟩
  · exact .inr (.inr (step_other hbounds))

/-! ### What was encoded -/

lemma begin?_two (lead : Nat) (hle : 2 ≤ lead) (hlt : lead < 32) :
    ∃ begun : Begun, begin? (lead + 192) = some begun ∧ begun.value = lead ∧ begun.owed = 0 ∧
      begun.low = 0x80 ∧ begun.high = 0xBF := by
  have hrange : 0xC2 ≤ lead + 192 ∧ lead + 192 ≤ 0xDF := by omega
  exact ⟨_, dif_pos hrange, by simp, rfl, rfl, rfl⟩

lemma begin?_three (lead : Nat) (hlt : lead < 16) :
    ∃ begun : Begun, begin? (lead + 224) = some begun ∧ begun.value = lead ∧ begun.owed = 1 ∧
      (begun.low = if lead = 0 then 0xA0 else 0x80) ∧
      begun.high = if lead = 13 then 0x9F else 0xBF := by
  have htwo : ¬ (0xC2 ≤ lead + 224 ∧ lead + 224 ≤ 0xDF) := by omega
  have hrange : 0xE0 ≤ lead + 224 ∧ lead + 224 ≤ 0xEF := by omega
  refine ⟨_, (dif_neg htwo).trans (dif_pos hrange), by simp, rfl, ?_, ?_⟩
  · exact if_congr (by omega) rfl rfl
  · exact if_congr (by omega) rfl rfl

lemma begin?_four (lead : Nat) (hle : lead ≤ 4) :
    ∃ begun : Begun, begin? (lead + 240) = some begun ∧ begun.value = lead ∧ begun.owed = 2 ∧
      (begun.low = if lead = 0 then 0x90 else 0x80) ∧
      begun.high = if lead = 4 then 0x8F else 0xBF := by
  have htwo : ¬ (0xC2 ≤ lead + 240 ∧ lead + 240 ≤ 0xDF) := by omega
  have hthree : ¬ (0xE0 ≤ lead + 240 ∧ lead + 240 ≤ 0xEF) := by omega
  have hrange : 0xF0 ≤ lead + 240 ∧ lead + 240 ≤ 0xF4 := by omega
  refine ⟨_, (dif_neg htwo).trans ((dif_neg hthree).trans (dif_pos hrange)), by simp, rfl, ?_, ?_⟩
  · exact if_congr (by omega) rfl rfl
  · exact if_congr (by omega) rfl rfl

/-- The bytes of a character behind its first one, by the six bits in each of them. -/
def tail (bits : List Nat) : List UInt8 :=
  bits.map fun six => UInt8.ofNat (six + 128)

/-- The bytes that are owed complete the character. -/
lemma decodeFrom_tail {six : Nat} {bits : List Nat} (hlow : begun.low ≤ six + 128)
    (hhigh : six + 128 ≤ begun.high) (hsix : six < 64) (hbits : ∀ more ∈ bits, more < 64)
    (howed : begun.owed = bits.length) (bytes : List UInt8) :
    decodeFrom (some begun) (tail (six :: bits) ++ bytes) =
      Char.ofNat ((six :: bits).foldl (fun value six => value * 64 + six) begun.value) ::
        decodeFrom none bytes := by
  have hbyte : (UInt8.ofNat (six + 128)).toNat = six + 128 :=
    UInt8.toNat_ofNat_of_lt' (by rw [UInt8.size]; omega)
  rw [tail, List.map_cons, List.cons_append, decodeFrom_cons, hbyte, List.foldl_cons]
  induction bits generalizing begun six with
  | nil =>
      rw [step_last hlow hhigh howed, Nat.add_sub_cancel]
      rfl
  | cons next bits ih =>
      obtain ⟨hnext, hbits⟩ := List.forall_mem_cons.1 hbits
      obtain ⟨begun', hstep, hvalue, howed', hlow', hhigh'⟩ := step_more hlow hhigh howed
      have hbyte' : (UInt8.ofNat (next + 128)).toNat = next + 128 :=
        UInt8.toNat_ofNat_of_lt' (by rw [UInt8.size]; omega)
      rw [Nat.add_sub_cancel] at hvalue
      rw [hstep, List.nil_append, List.map_cons, List.cons_append, decodeFrom_cons, hbyte',
        List.foldl_cons, ← hvalue]
      exact ih (by omega) (by omega) hnext hbits howed' hbyte'

/-- A character of more than one byte: the first one begins it, and the others complete it. -/
lemma decodeFrom_lead (lead six : Nat) (bits : List Nat) (hle : 0x80 ≤ lead)
    (hlt : lead < UInt8.size) (hbegin : begin? lead = some begun) (hlow : begun.low ≤ six + 128)
    (hhigh : six + 128 ≤ begun.high) (hsix : six < 64) (hbits : ∀ more ∈ bits, more < 64)
    (howed : begun.owed = bits.length) {c : Char}
    (hvalue : (six :: bits).foldl (fun value six => value * 64 + six) begun.value = c.toNat)
    (bytes : List UInt8) :
    decodeFrom none (UInt8.ofNat lead :: tail (six :: bits) ++ bytes) =
      c :: decodeFrom none bytes := by
  have hstep : step none lead = ([], some begun) := first_of_begin? hle hbegin
  rw [List.cons_append, decodeFrom_cons, UInt8.toNat_ofNat_of_lt' hlt, hstep, List.nil_append,
    decodeFrom_tail hlow hhigh hsix hbits howed, hvalue, Char.ofNat_toNat]

/-- **The bytes of a character are read as the character**, whatever stands behind them. -/
lemma decodeFrom_utf8EncodeChar_append (c : Char) (bytes : List UInt8) :
    decodeFrom none (String.utf8EncodeChar c ++ bytes) = c :: decodeFrom none bytes := by
  have hvalid : c.toNat < 0xD800 ∨ 0xDFFF < c.toNat ∧ c.toNat < 0x110000 := c.valid
  have hsame : c.val.toNat = c.toNat := rfl
  have hsize : UInt8.size = 256 := rfl
  rw [String.utf8EncodeChar, hsame]
  split_ifs with hone htwo hthree
  · have hstep : step none c.toNat = ([Char.ofNat c.toNat], none) := first_of_lt (by omega)
    have hbyte : (UInt8.ofNat c.toNat).toNat = c.toNat :=
      UInt8.toNat_ofNat_of_lt' (by rw [hsize]; omega)
    rw [List.singleton_append, decodeFrom_cons, hbyte, hstep, Char.ofNat_toNat]
    rfl
  · obtain ⟨begun, hbegin, hvalue, howed, hlow, hhigh⟩ :=
      begin?_two (c.toNat / 64 % 32) (by omega) (by omega)
    refine decodeFrom_lead _ (c.toNat % 64) [] (by omega) (by omega) hbegin (by omega) (by omega)
      (by omega) (List.forall_mem_nil _) howed ?_ bytes
    simp only [List.foldl_cons, List.foldl_nil]
    omega
  · obtain ⟨begun, hbegin, hvalue, howed, hlow, hhigh⟩ :=
      begin?_three (c.toNat / 4096 % 16) (by omega)
    refine decodeFrom_lead _ (c.toNat / 64 % 64) [c.toNat % 64] (by omega) (by omega) hbegin ?_ ?_
      (by omega) (List.forall_mem_singleton.2 (by omega)) howed ?_ bytes
    · split at hlow <;> omega
    · split at hhigh <;> omega
    · simp only [List.foldl_cons, List.foldl_nil]
      omega
  · obtain ⟨begun, hbegin, hvalue, howed, hlow, hhigh⟩ :=
      begin?_four (c.toNat / 262144 % 8) (by omega)
    refine decodeFrom_lead _ (c.toNat / 4096 % 64) [c.toNat / 64 % 64, c.toNat % 64] (by omega)
      (by omega) hbegin ?_ ?_ (by omega)
      (List.forall_mem_cons.2 ⟨by omega, List.forall_mem_singleton.2 (by omega)⟩) howed ?_ bytes
    · split at hlow <;> omega
    · split at hhigh <;> omega
    · simp only [List.foldl_cons, List.foldl_nil]
      omega

/-- **The bytes of a text are read as the text.** -/
theorem decode_toUTF8 (text : String) : decode text.toUTF8.data.toList = text := by
  have hchars (s : List Char) : decodeFrom none (s.flatMap String.utf8EncodeChar) = s := by
    induction s with
    | nil => rfl
    | cons c s ih => rw [List.flatMap_cons, decodeFrom_utf8EncodeChar_append, ih]
  have hbytes : text.toUTF8 = (text.toList.flatMap String.utf8EncodeChar).toByteArray := by
    conv_lhs => rw [← String.ofList_toList (s := text)]
    exact String.toByteArray_ofList
  rw [decode, hbytes, List.data_toByteArray, hchars, String.ofList_toList]

/-! ### Bytes of ASCII -/

/-- A byte of ASCII is a character of its own, and what has begun in front of it breaks off. -/
lemma decodeFrom_append_cons {byte : UInt8} (h : byte.toNat < 0x80) (begun : Option Begun)
    (front bytes : List UInt8) :
    decodeFrom begun (front ++ byte :: bytes) =
      decodeFrom begun front ++ Char.ofNat byte.toNat :: decodeFrom none bytes := by
  induction front generalizing begun with
  | nil =>
      rw [List.nil_append, decodeFrom_cons]
      cases begun with
      | none =>
          rw [show step none byte.toNat = _ from first_of_lt h]
          rfl
      | some begun =>
          have hlow := begun.ascii_lt
          rw [step_other (by omega), first_of_lt h]
          rfl
  | cons first front ih =>
      rw [List.cons_append, decodeFrom_cons, ih, decodeFrom_cons, List.append_assoc]

/-- A byte that begins nothing, and a character that breaks off in front of a semicolon. -/
example : decodeFrom none [0x61, 0xFF, 0xE2, 0x82, 0x3B] = ['a', replacement, replacement, ';'] := by
  decide

lemma decodeFrom_some_ne_nil (begun : Begun) (bytes : List UInt8) :
    decodeFrom (some begun) bytes ≠ [] := by
  induction bytes generalizing begun with
  | nil => exact List.cons_ne_nil _ _
  | cons byte bytes ih =>
      rw [decodeFrom_cons]
      obtain ⟨next, hstep⟩ | ⟨n, -, hstep⟩ | hstep := step_cases begun byte.toNat <;> rw [hstep]
      · exact ih next
      · exact List.cons_ne_nil _ _
      · exact List.cons_ne_nil _ _

lemma decodeFrom_ne_nil (h : bytes ≠ []) : decodeFrom none bytes ≠ [] := by
  obtain ⟨byte, bytes, rfl⟩ := List.exists_cons_of_ne_nil h
  rw [decodeFrom_cons, step]
  obtain hfirst | ⟨begun, hfirst⟩ | hfirst := first_cases byte.toNat <;> rw [hfirst]
  · exact List.cons_ne_nil _ _
  · exact decodeFrom_some_ne_nil begun bytes
  · exact List.cons_ne_nil _ _

/-! ### Semicolons -/

lemma eq_of_ofNat_eq_semicolon {n : Nat} (h : Char.ofNat n = ';') : n = 0x3B := by
  by_cases hvalid : n.isValidChar
  · have hchar : Char.ofNat n = Char.ofNatAux n hvalid := dif_pos hvalid
    exact congrArg Char.toNat (hchar.symm.trans h)
  · have hnull : Char.ofNat n = '\x00' := dif_neg hvalid
    exact absurd (hnull.symm.trans h) (by decide)

lemma eq_of_semicolon_mem_first (h : ';' ∈ (first byte).1) : byte = 0x3B := by
  obtain hfirst | ⟨begun, hfirst⟩ | hfirst := first_cases byte <;> rw [hfirst] at h
  · exact eq_of_ofNat_eq_semicolon (List.mem_singleton.1 h).symm
  · cases h
  · exact absurd (List.mem_singleton.1 h) (by decide)

/-- Only the byte of a semicolon completes one: the numbers of characters with more bytes are too
large. -/
lemma eq_of_semicolon_mem_step {begun : Option Begun} (h : ';' ∈ (step begun byte).1) :
    byte = 0x3B := by
  cases begun with
  | none => exact eq_of_semicolon_mem_first h
  | some begun =>
      obtain ⟨next, hstep⟩ | ⟨n, hn, hstep⟩ | hstep := step_cases begun byte <;> rw [hstep] at h
      · cases h
      · have hvalue := eq_of_ofNat_eq_semicolon (List.mem_singleton.1 h).symm
        omega
      · rcases List.mem_cons.1 h with h | h
        · exact absurd h (by decide)
        · exact eq_of_semicolon_mem_first h

/-- **Only its own byte is read as a semicolon.** -/
lemma semicolon_not_mem_decodeFrom (h : 0x3B ∉ bytes) (begun : Option Begun) :
    ';' ∉ decodeFrom begun bytes := by
  induction bytes generalizing begun with
  | nil =>
      cases begun with
      | none => exact List.not_mem_nil
      | some begun => exact mt List.mem_singleton.1 (by decide)
  | cons byte bytes ih =>
      obtain ⟨hbyte, hbytes⟩ := not_or.1 (mt List.mem_cons.2 h)
      rw [decodeFrom_cons, List.mem_append, not_or]
      refine ⟨fun hmem => hbyte ?_, ih hbytes _⟩
      exact (UInt8.toNat_inj.1 (eq_of_semicolon_mem_step hmem)).symm

end ProofSheet.Text.Utf8
