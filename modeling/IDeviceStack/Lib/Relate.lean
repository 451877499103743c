/-
# `Lib.Relate` — two programs with related results

Two programs that may fail are `Related` by a relation on their results if they both fail
or both succeed, with results in the relation.  What is proved of a program this way follows its
text: a `bind` by a relation for what comes first, a test by its being the same on both
sides.
-/
import Mathlib.Logic.Basic

namespace IDeviceStack.Lib

variable {ε α β α' β' : Type}

/-- Both fail, or the results are in `R`. -/
def Related (R : α → α' → Prop) : Except ε α → Except ε α' → Prop
  | .ok a, .ok b => R a b
  | .error _, .error _ => True
  | _, _ => False

variable {R : α → α' → Prop}

theorem Related.ok {a : α} {b : α'} (h : R a b) : Related R (.ok a : Except ε α) (.ok b) := h

theorem Related.error (e e' : ε) :
    Related R (.error e : Except ε α) (.error e' : Except ε α') := trivial

theorem Related.refl {R : α → α → Prop} (hR : ∀ a, R a a) (x : Except ε α) : Related R x x := by
  cases x with
  | error e => trivial
  | ok a => exact hR a

variable {x : Except ε α} {y : Except ε α'}

/-- **One after the other.** -/
theorem Related.bind {S : β → β' → Prop} {f : α → Except ε β} {g : α' → Except ε β'}
    (h : Related R x y) (hfg : ∀ a b, R a b → Related S (f a) (g b)) :
    Related S (x >>= f) (y >>= g) := by
  cases x with
  | error e =>
    cases y with
    | error e' => trivial
    | ok b => exact h.elim
  | ok a =>
    cases y with
    | error e' => exact h.elim
    | ok b => exact hfg a b h

/-- The same with what is known of the first result on the left. -/
theorem Related.bind_of {S : β → β' → Prop} {f : α → Except ε β} {g : α' → Except ε β'}
    (h : Related R x y) (hfg : ∀ a b, x = .ok a → R a b → Related S (f a) (g b)) :
    Related S (x >>= f) (y >>= g) := by
  cases x with
  | error e =>
    cases y with
    | error e' => trivial
    | ok b => exact h.elim
  | ok a =>
    cases y with
    | error e' => exact h.elim
    | ok b => exact hfg a b rfl h

/-- **A test.** -/
theorem Related.ite {p q : Prop} [Decidable p] [Decidable q] (hpq : p ↔ q) {x1 x2 : Except ε α}
    {y1 y2 : Except ε α'} (h1 : p → Related R x1 y1) (h2 : ¬ p → Related R x2 y2) :
    Related R (if p then x1 else x2) (if q then y1 else y2) := by
  by_cases hp : p
  · rw [if_pos hp, if_pos (hpq.mp hp)]
    exact h1 hp
  · rw [if_neg hp, if_neg fun hq => hp (hpq.mpr hq)]
    exact h2 hp

theorem Related.eq_ok (h : Related R x y) {a : α} (hx : x = .ok a) : ∃ b, y = .ok b ∧ R a b := by
  subst hx
  cases y with
  | error e' => exact h.elim
  | ok b => exact ⟨b, rfl, h⟩

theorem Related.eq_ok' (h : Related R x y) {b : α'} (hy : y = .ok b) : ∃ a, x = .ok a ∧ R a b := by
  subst hy
  cases x with
  | error e => exact h.elim
  | ok a => exact ⟨a, rfl, h⟩

end IDeviceStack.Lib
