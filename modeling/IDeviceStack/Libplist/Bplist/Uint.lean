/-
# `Libplist.Bplist.Uint` — unsigned integers of a binary plist

Integers in a binary plist are big-endian and from 1 to 8 bytes wide.  The
reader goes through `UINT_TO_HOST`, which has a path of its own for the widths 2,
3, 4 and 8 and takes the first byte for every other width.

All hosts here are little-endian.  What differs between builds is whether
`__LITTLE_ENDIAN__` is defined: `configure` defines it, the Visual Studio
projects do not.  Without it `byte_convert` is empty (and so are
`float_bswap32` and `float_bswap64`).
-/
import IDeviceStack.Lib.Endian

namespace IDeviceStack.Libplist.Bplist

open Lib List

/-- A build: is `__LITTLE_ENDIAN__` defined? -/
structure Build where
  littleEndian : Bool
  deriving DecidableEq, Repr

/-- The build of the Visual Studio projects. -/
def Build.shipped : Build := ⟨false⟩

/-- The build that `configure` makes. -/
def Build.configured : Build := ⟨true⟩

def bswap16 (x : Nat) : Nat := (x &&& 0xFF00) >>> 8 ||| (x &&& 0x00FF) <<< 8

def bswap32 (x : Nat) : Nat :=
  (x &&& 0xFF000000) >>> 24 ||| (x &&& 0x00FF0000) >>> 8 |||
    (x &&& 0x0000FF00) <<< 8 ||| (x &&& 0x000000FF) <<< 24

def bswap64 (x : Nat) : Nat :=
  (x &&& 0xFF00000000000000) >>> 56 ||| (x &&& 0x00FF000000000000) >>> 40 |||
    (x &&& 0x0000FF0000000000) >>> 24 ||| (x &&& 0x000000FF00000000) >>> 8 |||
    (x &&& 0x00000000FF000000) <<< 8 ||| (x &&& 0x0000000000FF0000) <<< 24 |||
    (x &&& 0x000000000000FF00) <<< 40 ||| (x &&& 0x00000000000000FF) <<< 56

/-- The loop of `byte_convert` from `i` on, with `k` turns to go. -/
def byteSwap : Nat → Nat → List UInt8 → List UInt8
  | 0, _, address => address
  | k + 1, i, address =>
    let j := address.length - 1 - i
    let tmp := address.getD i 0
    byteSwap k (i + 1) ((address.set i (address.getD j 0)).set j tmp)

def byteConvert (build : Build) (address : List UInt8) : List UInt8 :=
  if build.littleEndian then byteSwap (address.length / 2) 0 address else address

/-- `uint24_from_be`: three bytes go behind a zero byte, and the four are one `uint32_t`. -/
def uint24FromBe (build : Build) (buf : List UInt8) : Nat :=
  leVal (byteConvert build (0 :: buf.take 3))

/-- How many bytes `UINT_TO_HOST` reads. -/
def uintBytes (n : Nat) : Nat :=
  if n = 8 then 8 else if n = 4 then 4 else if n = 3 then 3 else if n = 2 then 2 else 1

/-- `UINT_TO_HOST`, on the bytes it reads. -/
def uintToHost (build : Build) (n : Nat) (bs : List UInt8) : Nat :=
  if n = 8 then bswap64 (leVal (bs.take 8))
  else if n = 4 then bswap32 (leVal (bs.take 4))
  else if n = 3 then uint24FromBe build bs
  else if n = 2 then bswap16 (leVal (bs.take 2))
  else leVal (bs.take 1)

def getNeededBytes (x : Nat) : Nat :=
  if x < 2 ^ 8 then 1 else if x < 2 ^ 16 then 2 else if x < 2 ^ 24 then 3
  else if x < 2 ^ 32 then 4 else 8

/-! ## Swapping -/

theorem maskShiftRight (x a b : Nat) (h : b ≤ a) :
    (x &&& (255 <<< a)) >>> b = (x >>> a % 256) <<< (a - b) := by
  have hsplit : 2 ^ a = 2 ^ (a - b) * 2 ^ b := by
    rw [← pow_add]
    congr 1
    omega
  rw [and_byteMask, Nat.shiftLeft_eq, Nat.shiftLeft_eq, Nat.shiftRight_eq_div_pow, hsplit,
    ← Nat.mul_assoc, Nat.mul_div_cancel _ (Nat.two_pow_pos b)]

theorem maskShiftLeft (x a b : Nat) : (x &&& (255 <<< a)) <<< b = (x >>> a % 256) <<< (a + b) := by
  rw [and_byteMask, ← Nat.shiftLeft_add]

theorem add_byte_lt {x k : Nat} (hx : x < 2 ^ k) (y : Nat) : x + y % 256 * 2 ^ k < 2 ^ (k + 8) := by
  have hy : y % 256 * 2 ^ k ≤ 255 * 2 ^ k := Nat.mul_le_mul_right _ (by omega)
  rw [pow_add]
  omega

theorem bswap16_eq (x : Nat) : bswap16 x = x >>> 8 % 256 + x % 256 * 2 ^ 8 := by
  have h0 := maskShiftRight x 8 8 (by omega)
  have h1 := maskShiftLeft x 0 8
  simp only [Nat.reduceShiftLeft, Nat.sub_self, Nat.shiftLeft_zero, Nat.shiftRight_zero,
    Nat.zero_add] at h0 h1
  have hlt : x >>> 8 % 256 < 2 ^ 8 := Nat.mod_lt _ (by omega)
  rw [bswap16, h0, h1, or_shiftLeft hlt]

theorem bswap32_eq (x : Nat) :
    bswap32 x = x >>> 24 % 256 + x >>> 16 % 256 * 2 ^ 8 + x >>> 8 % 256 * 2 ^ 16 +
      x % 256 * 2 ^ 24 := by
  have h0 := maskShiftRight x 24 24 (by omega)
  have h1 := maskShiftRight x 16 8 (by omega)
  have h2 := maskShiftLeft x 8 8
  have h3 := maskShiftLeft x 0 24
  simp only [Nat.reduceShiftLeft, Nat.reduceSub, Nat.reduceAdd, Nat.shiftLeft_zero,
    Nat.shiftRight_zero] at h0 h1 h2 h3
  have l0 : x >>> 24 % 256 < 2 ^ 8 := Nat.mod_lt _ (by omega)
  have l1 := add_byte_lt l0 (x >>> 16)
  have l2 := add_byte_lt l1 (x >>> 8)
  rw [bswap32, h0, h1, h2, h3, or_shiftLeft l0, or_shiftLeft l1, or_shiftLeft l2]

theorem bswap64_eq (x : Nat) :
    bswap64 x = x >>> 56 % 256 + x >>> 48 % 256 * 2 ^ 8 + x >>> 40 % 256 * 2 ^ 16 +
      x >>> 32 % 256 * 2 ^ 24 + x >>> 24 % 256 * 2 ^ 32 + x >>> 16 % 256 * 2 ^ 40 +
      x >>> 8 % 256 * 2 ^ 48 + x % 256 * 2 ^ 56 := by
  have h0 := maskShiftRight x 56 56 (by omega)
  have h1 := maskShiftRight x 48 40 (by omega)
  have h2 := maskShiftRight x 40 24 (by omega)
  have h3 := maskShiftRight x 32 8 (by omega)
  have h4 := maskShiftLeft x 24 8
  have h5 := maskShiftLeft x 16 24
  have h6 := maskShiftLeft x 8 40
  have h7 := maskShiftLeft x 0 56
  simp only [Nat.reduceShiftLeft, Nat.reduceSub, Nat.reduceAdd, Nat.shiftLeft_zero,
    Nat.shiftRight_zero] at h0 h1 h2 h3 h4 h5 h6 h7
  have l0 : x >>> 56 % 256 < 2 ^ 8 := Nat.mod_lt _ (by omega)
  have l1 := add_byte_lt l0 (x >>> 48)
  have l2 := add_byte_lt l1 (x >>> 40)
  have l3 := add_byte_lt l2 (x >>> 32)
  have l4 := add_byte_lt l3 (x >>> 24)
  have l5 := add_byte_lt l4 (x >>> 16)
  have l6 := add_byte_lt l5 (x >>> 8)
  rw [bswap64, h0, h1, h2, h3, h4, h5, h6, h7, or_shiftLeft l0, or_shiftLeft l1, or_shiftLeft l2,
    or_shiftLeft l3, or_shiftLeft l4, or_shiftLeft l5, or_shiftLeft l6]

theorem bswap16_leVal {bs : List UInt8} (hlen : bs.length = 2) : bswap16 (leVal bs) = beVal bs := by
  match bs, hlen with
  | [b0, b1], _ =>
    have h0 := leVal_byte [b0, b1] 0
    have h1 := leVal_byte [b0, b1] 1
    simp only [Nat.reduceMul, Nat.shiftRight_zero, getD_cons_zero, getD_cons_succ]
      at h0 h1
    simp only [bswap16_eq, h0, h1, beVal, foldl_cons, foldl_nil]
    omega

theorem bswap32_leVal {bs : List UInt8} (hlen : bs.length = 4) : bswap32 (leVal bs) = beVal bs := by
  match bs, hlen with
  | [b0, b1, b2, b3], _ =>
    have h0 := leVal_byte [b0, b1, b2, b3] 0
    have h1 := leVal_byte [b0, b1, b2, b3] 1
    have h2 := leVal_byte [b0, b1, b2, b3] 2
    have h3 := leVal_byte [b0, b1, b2, b3] 3
    simp only [Nat.reduceMul, Nat.shiftRight_zero, getD_cons_zero, getD_cons_succ]
      at h0 h1 h2 h3
    simp only [bswap32_eq, h0, h1, h2, h3, beVal, foldl_cons, foldl_nil]
    omega

theorem bswap64_leVal {bs : List UInt8} (hlen : bs.length = 8) : bswap64 (leVal bs) = beVal bs := by
  match bs, hlen with
  | [b0, b1, b2, b3, b4, b5, b6, b7], _ =>
    have h0 := leVal_byte [b0, b1, b2, b3, b4, b5, b6, b7] 0
    have h1 := leVal_byte [b0, b1, b2, b3, b4, b5, b6, b7] 1
    have h2 := leVal_byte [b0, b1, b2, b3, b4, b5, b6, b7] 2
    have h3 := leVal_byte [b0, b1, b2, b3, b4, b5, b6, b7] 3
    have h4 := leVal_byte [b0, b1, b2, b3, b4, b5, b6, b7] 4
    have h5 := leVal_byte [b0, b1, b2, b3, b4, b5, b6, b7] 5
    have h6 := leVal_byte [b0, b1, b2, b3, b4, b5, b6, b7] 6
    have h7 := leVal_byte [b0, b1, b2, b3, b4, b5, b6, b7] 7
    simp only [Nat.reduceMul, Nat.shiftRight_zero, getD_cons_zero, getD_cons_succ]
      at h0 h1 h2 h3 h4 h5 h6 h7
    simp only [bswap64_eq, h0, h1, h2, h3, h4, h5, h6, h7, beVal, foldl_cons, foldl_nil]
    omega

theorem leBytes_bswap64 {x : Nat} (hx : x < 2 ^ 64) : leBytes 8 (bswap64 x) = beBytes 8 x := by
  have hval : leVal (beBytes 8 x).reverse = x := by
    rw [leVal_reverse, beVal_beBytes (by omega)]
  have hswap : bswap64 x = leVal (beBytes 8 x) := by
    rw [← hval, bswap64_leVal (by simp), ← leVal_reverse, reverse_reverse, hval]
  rw [hswap]
  simpa using leBytes_leVal (beBytes 8 x)

theorem leBytes_bswap32 {x : Nat} (hx : x < 2 ^ 32) : leBytes 4 (bswap32 x) = beBytes 4 x := by
  have hval : leVal (beBytes 4 x).reverse = x := by
    rw [leVal_reverse, beVal_beBytes (by omega)]
  have hswap : bswap32 x = leVal (beBytes 4 x) := by
    rw [← hval, bswap32_leVal (by simp), ← leVal_reverse, reverse_reverse, hval]
  rw [hswap]
  simpa using leBytes_leVal (beBytes 4 x)

theorem leBytes_bswap16 {x : Nat} (hx : x < 2 ^ 16) : leBytes 2 (bswap16 x) = beBytes 2 x := by
  have hval : leVal (beBytes 2 x).reverse = x := by
    rw [leVal_reverse, beVal_beBytes (by omega)]
  have hswap : bswap16 x = leVal (beBytes 2 x) := by
    rw [← hval, bswap16_leVal (by simp), ← leVal_reverse, reverse_reverse, hval]
  rw [hswap]
  simpa using leBytes_leVal (beBytes 2 x)

/-! ## `UINT_TO_HOST` -/

theorem uintToHost_direct (build : Build) {n : Nat} {bs : List UInt8} (hlen : bs.length = n)
    (hn : n = 1 ∨ n = 2 ∨ n = 4 ∨ n = 8) : uintToHost build n bs = beVal bs := by
  rcases hn with rfl | rfl | rfl | rfl
  · obtain ⟨b, rfl⟩ := length_eq_one_iff.mp hlen
    simp [uintToHost, leVal, beVal]
  · have htake : bs.take 2 = bs := take_of_length_le (by omega)
    simp [uintToHost, htake, bswap16_leVal hlen]
  · have htake : bs.take 4 = bs := take_of_length_le (by omega)
    simp [uintToHost, htake, bswap32_leVal hlen]
  · have htake : bs.take 8 = bs := take_of_length_le (by omega)
    simp [uintToHost, htake, bswap64_leVal hlen]

theorem uintToHost_three {bs : List UInt8} (hlen : bs.length = 3) :
    uintToHost .configured 3 bs = beVal bs := by
  match bs, hlen with
  | [b0, b1, b2], _ =>
    simp [uintToHost, uint24FromBe, byteConvert, Build.configured, byteSwap, leVal, beVal]
    omega

theorem uintToHost_three_shipped (b0 b1 b2 : UInt8) :
    uintToHost .shipped 3 [b0, b1, b2] =
      b0.toNat * 256 + b1.toNat * 65536 + b2.toNat * 16777216 := by
  simp [uintToHost, uint24FromBe, byteConvert, Build.shipped, leVal]
  omega

theorem uintToHost_other (build : Build) {n : Nat} (b : UInt8) (bs : List UInt8) (h2 : n ≠ 2)
    (h3 : n ≠ 3) (h4 : n ≠ 4) (h8 : n ≠ 8) : uintToHost build n (b :: bs) = b.toNat := by
  simp [uintToHost, h2, h3, h4, h8, leVal]

end IDeviceStack.Libplist.Bplist
