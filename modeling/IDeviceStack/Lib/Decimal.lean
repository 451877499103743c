/-
# `Lib.Decimal` — numbers in decimal

A number as ASCII digits, the way `%d` and `%u` write it, and the reading back.

**Proved here.**  What is written consists of digits and is read as the number
(`isDigit_of_mem_print`, `read_print`).
-/
import Mathlib.Data.List.Basic
import Mathlib.Data.FinEnum

namespace IDeviceStack.Lib.Decimal

def isDigit (c : UInt8) : Prop := 0x30 ≤ c ∧ c ≤ 0x39

instance (c : UInt8) : Decidable (isDigit c) := inferInstanceAs (Decidable (_ ∧ _))

/-- The digits of a number. -/
def print (n : Nat) : List UInt8 := (Nat.toDigits 10 n).map fun c => UInt8.ofNat c.toNat

/-- The number that digits stand for. -/
def read (digits : List UInt8) : Option Nat :=
  if digits ≠ [] ∧ ∀ c ∈ digits, isDigit c then
    some (digits.foldl (fun n c => 10 * n + (c.toNat - 0x30)) 0)
  else none

theorem toNat_of_mem_toDigits {n : Nat} {c : Char} (h : c ∈ Nat.toDigits 10 n) :
    0x30 ≤ c.toNat ∧ c.toNat ≤ 0x39 ∧ (UInt8.ofNat c.toNat).toNat = c.toNat := by
  have hdigit := Nat.isDigit_of_mem_toDigits (by decide) (by decide) h
  simp only [Char.isDigit, Bool.and_eq_true, decide_eq_true_eq, ge_iff_le,
    UInt32.le_iff_toNat_le] at hdigit
  have hval : c.val.toNat = c.toNat := rfl
  have hzero : '0'.val.toNat = 48 := rfl
  have hnine : '9'.val.toNat = 57 := rfl
  rw [hval, hzero, hnine] at hdigit
  refine ⟨hdigit.1, hdigit.2, ?_⟩
  rw [UInt8.toNat_ofNat']
  omega

theorem isDigit_of_mem_print {n : Nat} {c : UInt8} (h : c ∈ print n) : isDigit c := by
  obtain ⟨c', hc', rfl⟩ := List.mem_map.1 h
  obtain ⟨hlow, hhigh, hnat⟩ := toNat_of_mem_toDigits hc'
  rw [isDigit, UInt8.le_iff_toNat_le, UInt8.le_iff_toNat_le, hnat]
  exact ⟨hlow, hhigh⟩

theorem print_ne_nil (n : Nat) : print n ≠ [] := by
  rw [print, Ne, List.map_eq_nil_iff]
  exact Nat.toDigits_ne_nil

/-- What is written is read. -/
theorem read_print (n : Nat) : read (print n) = some n := by
  rw [read, if_pos ⟨print_ne_nil n, fun c hc => isDigit_of_mem_print hc⟩, print, List.foldl_map]
  have hfold : ∀ (digits : List Char) (v : Nat), (∀ c ∈ digits, c ∈ Nat.toDigits 10 n) →
      digits.foldl (fun v c => 10 * v + ((UInt8.ofNat c.toNat).toNat - 0x30)) v =
        Nat.ofDigitChars 10 digits v := by
    intro digits
    induction digits with
    | nil =>
      intro v _
      rw [List.foldl_nil, Nat.ofDigitChars_nil]
    | cons c digits ih =>
      intro v hmem
      rw [List.foldl_cons, Nat.ofDigitChars_cons, ih _ fun c' hc' => hmem c' (.tail _ hc'),
        (toNat_of_mem_toDigits (hmem c (.head _))).2.2]
      rfl
  rw [hfold _ 0 fun _ h => h, Nat.ofDigitChars_ten_toDigits]

end IDeviceStack.Lib.Decimal
