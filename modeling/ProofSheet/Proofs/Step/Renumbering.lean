import Mathlib.Data.Set.Operations
import Mathlib.Tactic.Lemma
import ProofSheet.Step.Renumbering

/-!
Renumberings as functions on step numbers, where a number that is not named stays as it is.

* `Renumbering.table`: the renumbering that writes some numbers as a function says;
* `Renumbering.andThen`: a renumbering and then another one as a single renumbering, with
  `apply_andThen`;
* `Renumbering.back`: the way back for some numbers, with `back_apply`: it undoes a renumbering
  that keeps those numbers apart.
-/

namespace ProofSheet.Renumbering

variable {m : Renumbering} {n : String}

/-! ### What a renumbering names -/

lemma mem_pairs_of_target? {old new : String} (h : m.target? old = some new) :
    (old, new) ∈ m.pairs := by
  obtain ⟨pair, hpair, rfl⟩ := Option.map_eq_some_iff.1 h
  rw [List.findRev?_eq_find?_reverse] at hpair
  have hmem := List.mem_reverse.1 (List.mem_of_find?_eq_some hpair)
  have hold : pair.1 = old := by simpa using List.find?_some hpair
  rw [← hold]
  exact hmem

/-- The numbers that the renumbering names. -/
def keys (m : Renumbering) : List String :=
  m.pairs.map (·.1)

lemma names_iff : m.names n = true ↔ n ∈ m.keys := by
  rw [names, target?, Option.isSome_map, List.findRev?_eq_find?_reverse, List.find?_isSome, keys,
    List.mem_map]
  simp only [List.mem_reverse, beq_iff_eq]

/-- A number that is not named stays as it is. -/
lemma apply_eq_self (h : m.names n = false) : m.apply n = n := by
  rw [names, Option.isSome_eq_false_iff, Option.isNone_iff_eq_none] at h
  rw [apply, h, Option.getD_none]

/-- What is named has its new number from one of the pairs. -/
lemma exists_target? (h : n ∈ m.keys) : ∃ new, m.target? n = some new ∧ (n, new) ∈ m.pairs := by
  obtain ⟨new, hnew⟩ := Option.isSome_iff_exists.1 (names_iff.2 h)
  exact ⟨new, hnew, mem_pairs_of_target? hnew⟩

/-! ### Renumberings from functions -/

/-- The renumbering that names the given numbers and writes each of them as `f` says. -/
def table (f : String → String) (numbers : List String) : Renumbering :=
  ⟨numbers.map fun n => (n, f n)⟩

lemma keys_table (f : String → String) (numbers : List String) :
    (table f numbers).keys = numbers := by
  rw [keys, table, List.map_map]
  exact List.map_id _

lemma target?_table (f : String → String) (numbers : List String) :
    (table f numbers).target? n = if n ∈ numbers then some (f n) else none := by
  split
  next h =>
    obtain ⟨new, hnew, hpair⟩ := exists_target? (keys_table f numbers ▸ h)
    obtain ⟨k, -, hk⟩ := List.mem_map.1 hpair
    obtain ⟨rfl, rfl⟩ := Prod.mk.inj hk
    exact hnew
  next h =>
    rw [← Option.not_isSome_iff_eq_none]
    exact fun hnamed => h (keys_table f numbers ▸ names_iff.1 hnamed)

/-! ### One after the other -/

/-- The renumbering `m` and then `m'`, as one: it names what either of them names. -/
def andThen (m m' : Renumbering) : Renumbering :=
  table (fun n => m'.apply (m.apply n)) (m.keys ++ m'.keys)

lemma target?_andThen (m m' : Renumbering) (n : String) :
    (m.andThen m').target? n =
      if m.names n || m'.names n then some (m'.apply (m.apply n)) else none := by
  simp only [andThen, target?_table, List.mem_append, ← names_iff, Bool.or_eq_true]

lemma apply_andThen (m m' : Renumbering) (n : String) :
    (m.andThen m').apply n = m'.apply (m.apply n) := by
  rw [apply, target?_andThen]
  split
  · rfl
  next h =>
    rw [Bool.not_eq_true, Bool.or_eq_false_iff] at h
    rw [Option.getD_none, apply_eq_self h.1, apply_eq_self h.2]

/-! ### And back -/

/-- The way back for the given numbers: what `m` makes of each of them becomes that number. -/
def back (m : Renumbering) (numbers : List String) : Renumbering :=
  ⟨numbers.map fun n => (m.apply n, n)⟩

lemma target?_back {numbers : List String} (hinj : Set.InjOn m.apply {n | n ∈ numbers})
    (hn : n ∈ numbers) : (m.back numbers).target? (m.apply n) = some n := by
  have hkey : m.apply n ∈ (m.back numbers).keys :=
    List.mem_map.2 ⟨_, List.mem_map_of_mem hn, rfl⟩
  -- the number may have been given more than once, but then every pair leads back to it
  obtain ⟨new, hnew, hpair⟩ := exists_target? hkey
  obtain ⟨k, hk, hpair⟩ := List.mem_map.1 hpair
  obtain ⟨hsame, rfl⟩ := Prod.mk.inj hpair
  rw [← hinj hk hn hsame]
  rwa [hsame]

/-- **The way back** undoes a renumbering that keeps the numbers apart. -/
lemma back_apply {numbers : List String} (hinj : Set.InjOn m.apply {n | n ∈ numbers})
    (hn : n ∈ numbers) : (m.back numbers).apply (m.apply n) = n := by
  rw [apply, target?_back hinj hn, Option.getD_some]

end ProofSheet.Renumbering
