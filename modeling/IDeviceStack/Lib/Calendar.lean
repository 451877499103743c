/-
# `Lib.Calendar` — the Gregorian calendar, on the whole line of days

Days are counted from 1 January 1970, years and months as usual, in both directions
without end.  `newYear` is the day a year begins on, in closed form; what algorithms on
dates need of it is how it goes on from one year to the next and from one cycle of 400
years to the next.  Division in C rounds towards zero, so there are also the quotients
that C and the calendar agree on.
-/
import Mathlib.Order.Lattice
import Mathlib.Data.Int.Order.Basic

namespace IDeviceStack.Lib

/-! ## Years -/

/-- Is `y` a leap year? -/
def IsLeap (y : Int) : Prop := y % 400 = 0 ∨ y % 4 = 0 ∧ y % 100 ≠ 0

instance (y : Int) : Decidable (IsLeap y) := inferInstanceAs (Decidable (_ ∨ _))

def yearLength (y : Int) : Int := if IsLeap y then 366 else 365

/-- The first day of a year. -/
def newYear (y : Int) : Int :=
  365 * (y - 1970) + ((y - 1) / 4 - (y - 1) / 100 + (y - 1) / 400) - 477

theorem newYear_1970 : newYear 1970 = 0 := by decide

/-- **The next year.** -/
theorem newYear_succ (y : Int) : newYear (y + 1) = newYear y + yearLength y := by
  rw [yearLength, newYear, newYear]
  split
  · rename_i h
    rw [IsLeap] at h
    omega
  · rename_i h
    rw [IsLeap] at h
    omega

/-- **The next cycle.** -/
theorem newYear_add_cycles (y k : Int) : newYear (y + 400 * k) = newYear y + 146097 * k := by
  rw [newYear, newYear]
  omega

theorem isLeap_add_cycles (y k : Int) : IsLeap (y + 400 * k) ↔ IsLeap y := by
  rw [IsLeap, IsLeap]
  omega

theorem newYear_strictMono {y z : Int} (h : y < z) : newYear y < newYear z := by
  rw [newYear, newYear]
  omega

/-! ## Division towards zero -/

/-- Quotient and remainder of C. -/
theorem tdiv_tmod (a : Int) {b : Int} (hb : 0 < b) :
    a = b * a.tdiv b + a.tmod b ∧ (0 ≤ a → 0 ≤ a.tmod b ∧ a.tmod b < b) ∧
      (a ≤ 0 → -b < a.tmod b ∧ a.tmod b ≤ 0) := by
  refine ⟨(Int.mul_tdiv_add_tmod a b).symm, fun ha => ?_, fun ha => ?_⟩
  · exact ⟨Int.tmod_nonneg b ha, Int.tmod_lt_of_pos a hb⟩
  · have hneg : (-a).tmod b = -(a.tmod b) := Int.neg_tmod a b
    have hnonneg := Int.tmod_nonneg b (show 0 ≤ -a by omega)
    have hlt := Int.tmod_lt_of_pos (-a) hb
    omega

/-- Both remainders are 0 for the same numbers. -/
theorem tmod_eq_zero_iff (a b : Int) : a.tmod b = 0 ↔ a % b = 0 := by
  rw [← Int.dvd_iff_tmod_eq_zero, ← Int.dvd_iff_emod_eq_zero]

end IDeviceStack.Lib
