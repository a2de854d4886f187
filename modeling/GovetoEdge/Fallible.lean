import Mathlib

/-!
# Computations that may fail

What is known of a computation in `Except` that has succeeded: each of its parts
has, and no check on the way has failed.
-/

namespace Fallible

variable {ε α β : Type} {x : Except ε α} {b : β} {e : ε} {c : Prop} [Decidable c]

/-- The value of a computation that succeeds after another. -/
theorem exists_of_bind {f : α → Except ε β} (h : x >>= f = .ok b) :
    ∃ a, x = .ok a ∧ f a = .ok b := by
  cases x with
  | error e => cases h
  | ok a => exact ⟨a, rfl, h⟩

variable {a : α}

/-- A check that did not fail. -/
theorem ok_of_guard (h : (if c then .error e else x) = .ok a) : ¬ c ∧ x = .ok a := by
  by_cases hc : c
  · rw [if_pos hc] at h
    cases h
  · rw [if_neg hc] at h
    exact ⟨hc, h⟩

/-- A condition that was met. -/
theorem ok_of_require (h : (if c then x else .error e) = .ok a) : c ∧ x = .ok a := by
  rw [← ite_not] at h
  obtain ⟨hc, hx⟩ := ok_of_guard h
  exact ⟨not_not.mp hc, hx⟩

end Fallible
