import Mathlib.Tactic.Lemma

/-!
Computations that may be refused, as values of `Except`: what it takes for one of them to
succeed, and where it is refused.

* `Except.bind_eq_ok_iff`, `Except.map_eq_ok_iff`, `Except.ite_error_eq_ok_iff`,
  `Except.mapError_eq_ok_iff`: a computation in steps succeeds exactly when every step does;
* `Except.bind_eq_error_iff`, `Except.bind_pure_eq_error_iff`, `Except.mapError_eq_error_iff`: it is
  refused exactly when one of its steps is;
* `Except.eq_ok_of_toOption`: a success, read off the value as an option.
-/

namespace ProofSheet.Except

variable {α β ε δ : Type}

/-- A computation in two steps succeeds when both steps do. -/
lemma bind_eq_ok_iff {x : Except ε α} {f : α → Except ε β} {b : β} :
    (x >>= f) = .ok b ↔ ∃ a, x = .ok a ∧ f a = .ok b := by
  cases x with
  | error e =>
      refine ⟨fun h => ?_, ?_⟩
      · cases h
      · rintro ⟨a, h, -⟩
        cases h
  | ok a =>
      refine ⟨fun h => ⟨a, rfl, h⟩, ?_⟩
      rintro ⟨a', h, hb⟩
      cases h
      exact hb

lemma map_eq_ok_iff {x : Except ε α} {f : α → β} {b : β} :
    x.map f = .ok b ↔ ∃ a, x = .ok a ∧ f a = b := by
  cases x <;> simp [Except.map]

/-- A check in front of a computation has to let it pass. -/
lemma ite_error_eq_ok_iff {c : Prop} [Decidable c] {e : ε} {x : Except ε α} {a : α} :
    (if c then .error e else x) = .ok a ↔ ¬ c ∧ x = .ok a := by
  by_cases hc : c <;> simp [hc]

/-- Another name for the reason of a refusal turns no refusal into a success. -/
lemma mapError_eq_ok_iff {x : Except ε α} {f : ε → δ} {a : α} :
    x.mapError f = .ok a ↔ x = .ok a := by
  cases x with
  | error e => exact ⟨nofun, nofun⟩
  | ok b => exact ⟨fun h => congrArg Except.ok (Except.ok.inj h), fun h => congrArg _ h⟩

lemma mapError_eq_error_iff {x : Except ε α} {f : ε → δ} {d : δ} :
    x.mapError f = .error d ↔ ∃ e, x = .error e ∧ f e = d := by
  cases x with
  | error e =>
      refine ⟨fun h => ⟨e, rfl, Except.error.inj h⟩, ?_⟩
      rintro ⟨_, ⟨⟩, rfl⟩
      rfl
  | ok a =>
      refine ⟨fun h => (by cases h), ?_⟩
      rintro ⟨_, ⟨⟩, -⟩

/-- A computation in two steps is refused by the first step, or by the second. -/
lemma bind_eq_error_iff {x : Except ε α} {f : α → Except ε β} {e : ε} :
    (x >>= f) = .error e ↔ x = .error e ∨ ∃ a, x = .ok a ∧ f a = .error e := by
  cases x <;> simp [bind, Except.bind]

/-- A computation that only dresses up the value of another is refused when that is. -/
lemma bind_pure_eq_error_iff {x : Except ε α} {f : α → β} {e : ε} :
    (x >>= fun a => pure (f a)) = .error e ↔ x = .error e := by
  rw [bind_eq_error_iff]
  refine or_iff_left ?_
  rintro ⟨a, -, h⟩
  cases h

lemma eq_ok_of_toOption {x : Except ε α} {a : α} (h : x.toOption = some a) : x = .ok a := by
  cases x with
  | error e => exact nomatch h
  | ok b => exact congrArg Except.ok (Option.some.inj h)

end ProofSheet.Except
