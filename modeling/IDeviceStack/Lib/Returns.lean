/-
# `Lib.Returns` — computations that return

A computation in `Except` either returns a value or stops with an error.

**Proved here.**  What a sequence of two returns is what the second returns on the value of the
first.
-/
import Mathlib.Logic.Basic

namespace IDeviceStack.Lib

variable {ε α β : Type} {x : Except ε α} {f : α → Except ε β} {b : β} {P : β → Prop}

/-- Two computations, one after the other. -/
theorem except_bind_eq_ok : x >>= f = .ok b ↔ ∃ a, x = .ok a ∧ f a = .ok b := by
  cases x with
  | error e => exact ⟨fun h => (nomatch h), fun ⟨_, h, _⟩ => (nomatch h)⟩
  | ok a =>
    constructor
    · intro h
      exact ⟨a, rfl, h⟩
    · rintro ⟨_, ⟨⟩, h⟩
      exact h

theorem except_bind_ok {a : α} : (Except.ok a : Except ε α) >>= f = f a := rfl

end IDeviceStack.Lib
