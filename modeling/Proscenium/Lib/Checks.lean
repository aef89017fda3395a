import Mathlib

/-! Chains of checks that end in an error or go on: what it takes to pass. -/

namespace Checks

variable {ε ε' α β : Type}

theorem bind_eq_ok {x : Except ε α} {f : α → Except ε β} {b : β} :
    (x >>= f) = .ok b ↔ ∃ a, x = .ok a ∧ f a = .ok b := by
  cases x with
  | error e =>
    constructor
    · intro h
      exact nomatch h
    · rintro ⟨a, ha, -⟩
      exact nomatch ha
  | ok a =>
    constructor
    · intro h
      exact ⟨a, rfl, h⟩
    · rintro ⟨a', ha', h⟩
      cases ha'
      exact h

theorem mapError_eq_ok {f : ε → ε'} {x : Except ε α} {a : α} :
    Except.mapError f x = .ok a ↔ x = .ok a := by
  cases x <;> simp [Except.mapError]

theorem reject_eq_ok {p : Prop} [Decidable p] {e : ε} {x : Except ε α} {a : α} :
    (if p then .error e else x) = .ok a ↔ ¬ p ∧ x = .ok a := by
  split
  next h => simp [h]
  next h => simp [h]

theorem accept_eq_ok {p : Prop} [Decidable p] {e : ε} {a : α} :
    (if p then .ok a else .error e) = Except.ok a ↔ p := by
  split
  next h => simp [h]
  next h => simp [h]

theorem toBool_eq_true {x : Except ε Unit} : x.toBool = true ↔ x = .ok () := by
  cases x with
  | error e => simp [Except.toBool]
  | ok u => simp [Except.toBool]

end Checks
