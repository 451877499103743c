/-
# `Lib.Endian` — numbers as bytes

The value of a list of bytes in either order, the bytes of a number, and what
the usual masks and shifts of a byte swap amount to: `x & (0xFF << a)` is the
byte of `x` at `a`, and bytes put side by side with `|` add up.
-/
import Mathlib.Algebra.Order.Ring.Nat
import Mathlib.Data.List.Induction
import Mathlib.Data.Nat.Bitwise
import Mathlib.Tactic.Ring
import Mathlib.Tactic.NormNum

namespace IDeviceStack.Lib

open List

/-- The value of bytes, the least significant first. -/
def leVal : List UInt8 → Nat
  | [] => 0
  | b :: bs => b.toNat + 256 * leVal bs

/-- The value of bytes, the most significant first. -/
def beVal (bs : List UInt8) : Nat := bs.foldl (fun acc b => acc * 256 + b.toNat) 0

/-- The low `n` bytes of `x`, the least significant first. -/
def leBytes : Nat → Nat → List UInt8
  | 0, _ => []
  | n + 1, x => UInt8.ofNat x :: leBytes n (x / 256)

/-- The low `n` bytes of `x`, the most significant first. -/
def beBytes : Nat → Nat → List UInt8
  | 0, _ => []
  | n + 1, x => beBytes n (x / 256) ++ [UInt8.ofNat x]

@[simp] theorem length_beBytes (n x : Nat) : (beBytes n x).length = n := by
  induction n generalizing x with
  | zero => rfl
  | succ n ih => rw [beBytes, length_append, ih, length_singleton]

@[simp] theorem beVal_nil : beVal [] = 0 := rfl

theorem beVal_snoc (bs : List UInt8) (b : UInt8) : beVal (bs ++ [b]) = beVal bs * 256 + b.toNat := by
  simp [beVal]

/-- The bytes of a number that fits give it back. -/
theorem beVal_beBytes {n x : Nat} (hx : x < 256 ^ n) : beVal (beBytes n x) = x := by
  induction n generalizing x with
  | zero =>
    rw [pow_zero] at hx
    rw [beBytes, beVal_nil]
    omega
  | succ n ih =>
    rw [pow_succ] at hx
    rw [beBytes, beVal_snoc, ih (Nat.div_lt_of_lt_mul (by omega)), UInt8.toNat_ofNat']
    omega

theorem beVal_lt (bs : List UInt8) : beVal bs < 256 ^ bs.length := by
  induction bs using reverseRecOn with
  | nil => simp
  | append_singleton bs b ih =>
    have hb := b.toNat_lt
    rw [beVal_snoc, length_append, length_singleton, pow_succ]
    omega

theorem leVal_lt (bs : List UInt8) : leVal bs < 256 ^ bs.length := by
  induction bs with
  | nil => simp [leVal]
  | cons b bs ih =>
    have hb := b.toNat_lt
    rw [leVal, length_cons, pow_succ]
    omega

@[simp] theorem length_leBytes (n x : Nat) : (leBytes n x).length = n := by
  induction n generalizing x with
  | zero => rfl
  | succ n ih => rw [leBytes, length_cons, ih]

/-- The bytes of a little-endian value are those it was made of. -/
theorem leBytes_leVal (bs : List UInt8) : leBytes bs.length (leVal bs) = bs := by
  induction bs with
  | nil => rfl
  | cons b bs ih =>
    have hb := b.toNat_lt
    have hhead : UInt8.ofNat (b.toNat + 256 * leVal bs) = b := by
      apply UInt8.toNat_inj.mp
      rw [UInt8.toNat_ofNat']
      omega
    rw [length_cons, leVal, leBytes, hhead, show (b.toNat + 256 * leVal bs) / 256 = leVal bs by
      omega, ih]

theorem leVal_reverse (bs : List UInt8) : leVal bs.reverse = beVal bs := by
  induction bs using reverseRecOn with
  | nil => rfl
  | append_singleton bs b ih =>
    rw [beVal_snoc, reverse_append, reverse_singleton, singleton_append, leVal, ih]
    omega

theorem reverse_leBytes (n x : Nat) : (leBytes n x).reverse = beBytes n x := by
  induction n generalizing x with
  | zero => rfl
  | succ n ih => rw [leBytes, reverse_cons, ih, beBytes]

theorem leVal_leBytes {n x : Nat} (hx : x < 256 ^ n) : leVal (leBytes n x) = x := by
  have hrev : leBytes n x = (beBytes n x).reverse := by
    rw [← reverse_leBytes, reverse_reverse]
  rw [hrev, leVal_reverse, beVal_beBytes hx]

theorem take_leBytes {k n : Nat} (h : k ≤ n) (x : Nat) : (leBytes n x).take k = leBytes k x := by
  induction k generalizing n x with
  | zero => rfl
  | succ k ih =>
    cases n with
    | zero => omega
    | succ n => rw [leBytes, take_succ_cons, ih (by omega), leBytes]

/-- The last bytes of a number are the bytes of its low part. -/
theorem drop_beBytes {k n : Nat} (h : k ≤ n) (x : Nat) :
    (beBytes n x).drop (n - k) = beBytes k x := by
  rw [← reverse_leBytes, ← reverse_leBytes, ← take_leBytes h x, reverse_take, length_leBytes]

/-- The bytes of a little-endian value are the bytes it was made of. -/
theorem leVal_byte (bs : List UInt8) (i : Nat) :
    leVal bs >>> (8 * i) % 256 = (bs.getD i 0).toNat := by
  induction i generalizing bs with
  | zero =>
    cases bs with
    | nil => rfl
    | cons b bs =>
      have hb := b.toNat_lt
      simp only [leVal, Nat.mul_zero, Nat.shiftRight_zero, getD_cons_zero]
      omega
  | succ i ih =>
    cases bs with
    | nil => simp [leVal]
    | cons b bs =>
      have hb := b.toNat_lt
      have htail : leVal (b :: bs) >>> 8 = leVal bs := by
        simp only [leVal, Nat.shiftRight_eq_div_pow]
        omega
      rw [Nat.mul_add, Nat.mul_one, Nat.add_comm, Nat.shiftRight_add, htail, ih, getD_cons_succ]

/-- The byte of `x` at bit `a`, in place. -/
theorem and_byteMask (x a : Nat) : x &&& (255 <<< a) = (x >>> a % 256) <<< a := by
  apply Nat.eq_of_testBit_eq
  intro i
  have h255 : (255 : Nat) = 2 ^ 8 - 1 := rfl
  rw [Nat.testBit_and, Nat.testBit_shiftLeft, Nat.testBit_shiftLeft, h255, Nat.testBit_two_pow_sub_one,
    show (256 : Nat) = 2 ^ 8 from rfl, Nat.testBit_mod_two_pow, Nat.testBit_shiftRight]
  by_cases hi : i ≥ a
  · rw [show a + (i - a) = i by omega]
    simp [hi, Bool.and_comm]
  · simp [hi]

/-- A byte put above what is there. -/
theorem or_shiftLeft {x k : Nat} (hx : x < 2 ^ k) (b : Nat) : x ||| b <<< k = x + b * 2 ^ k := by
  rw [Nat.or_comm, ← Nat.shiftLeft_add_eq_or_of_lt hx, Nat.shiftLeft_eq, Nat.add_comm]

end IDeviceStack.Lib
