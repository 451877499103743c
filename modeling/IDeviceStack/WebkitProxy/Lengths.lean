/-
# `WebkitProxy.Lengths` — the arithmetic of frame lengths

The length on the wire has up to 64 bits.  `ws_read_frame_length` shifts it into a `size_t`
and adds the header, `ws_read_frame` subtracts the header again, and `cb_ensure_capacity`
adds what is in the buffer.

**Proved here.**  `lengthSound_iff`.
-/
import IDeviceStack.WebkitProxy.Fragments

namespace IDeviceStack.WebkitProxy

open Lib

/-- The bytes in front of the payload. -/
def headerLength (b1 : UInt8) : Nat := 2 + payloadNOf (len7 b1) + maskLength b1

/-- The length of the payload, as the header says it. -/
def wireLength (b1 : UInt8) (rest : List UInt8) : Nat :=
  if payloadNOf (len7 b1) > 0 then beVal (rest.take (payloadNOf (len7 b1))) else len7 b1

/-- The lengths that are computed for a frame with the header `b0 :: b1 :: rest`. -/
structure LengthSound (env : WsEnv) (ws : Ws) (b0 b1 : UInt8) (rest : List UInt8) : Prop where
  /-- `frame_length`. -/
  frame : (wsReadFrameLength env.machine.bits ws (b0 :: b1 :: rest)).1.frameLength =
    headerLength b1 + wireLength b1 rest
  /-- `ws_read_frame` gets to the copy, with the frame at hand and the capacity granted: the payload
  is in the input, and there is room for it.  The input and the buffer are in memory together. -/
  copy : ∀ v frameLength length data,
    frameLength = (wsReadFrameLength env.machine.bits ws (b0 :: b1 :: rest)).1.frameLength →
    ws.data.block.length + (b0 :: b1 :: rest ++ v).length ≤ 2 ^ env.machine.bits →
    frameLength ≤ (b0 :: b1 :: rest ++ v).length →
    length = payloadLengthOf env.machine.bits frameLength b1 →
    cbEnsureCapacity env.machine ws.data length = (data, true) →
    headerLength b1 + length ≤ (b0 :: b1 :: rest ++ v).length ∧
      data.tail + length ≤ data.block.length

section Lengths

variable (env : WsEnv) {ws : Ws} {b0 b1 : UInt8} {rest : List UInt8}

theorem payloadField_eq (m : Machine) (b1 : UInt8) (rest : List UInt8) :
    payloadField m.bits b1 rest = wireLength b1 rest % 2 ^ m.bits := by
  have hbits : 8 ≤ m.bits := by
    rcases m.bits_eq with h | h <;> omega
  have hpow := m.two_pow_bits_le
  rw [payloadField, wireLength]
  split
  · exact readLength_eq hbits _
  · have hlt : len7 b1 < 256 := (b1 &&& 0x7f).toNat_lt
    rw [Nat.mod_eq_of_lt (by omega)]

theorem frameLength_eq (herr : headerError ws.continuedOpcode b0 b1 = none)
    (hlen : payloadNOf (len7 b1) ≤ rest.length) :
    (wsReadFrameLength env.machine.bits ws (b0 :: b1 :: rest)).1.frameLength =
      (headerLength b1 + payloadField env.machine.bits b1 rest) % 2 ^ env.machine.bits := by
  simp only [wsReadFrameLength, frameLengthOf, herr, List.length_cons]
  rw [if_neg (by omega)]
  rfl

theorem fits_iff (m : Machine) (hlen : payloadNOf (len7 b1) ≤ rest.length) :
    headerLength b1 + wireLength b1 rest < 2 ^ m.bits ↔
      (payloadNOf (len7 b1) = 8 → 10 + maskLength b1 + beVal (rest.take 8) < 2 ^ m.bits) := by
  have hpow := m.two_pow_bits_le
  have hmask := maskLength_le b1
  have hlt : len7 b1 < 256 := (b1 &&& 0x7f).toNat_lt
  rw [headerLength, wireLength]
  by_cases h8 : payloadNOf (len7 b1) = 8
  · rw [h8, if_pos (by decide)]
    exact ⟨fun h _ => by omega, fun h => by have := h rfl; omega⟩
  · refine ⟨fun _ h => absurd h h8, fun _ => ?_⟩
    have hcases : payloadNOf (len7 b1) = 0 ∨ payloadNOf (len7 b1) = 2 := by
      revert h8
      rw [payloadNOf]
      split
      · exact fun _ => .inl rfl
      · split
        · exact fun _ => .inr rfl
        · exact fun h => absurd rfl h
    rcases hcases with h | h
    · rw [h, if_neg (by decide)]
      omega
    · have hval := beVal_lt (rest.take 2)
      rw [List.length_take, Nat.min_eq_left (by omega)] at hval
      rw [h, if_pos (by decide)]
      omega

/-- **Frame lengths.**  They are sound exactly if a length of eight bytes stays clear of the end
of the range of a `size_t` by the size of the header. -/
theorem lengthSound_iff (hwf : ws.data.Wf) (herr : headerError ws.continuedOpcode b0 b1 = none)
    (hlen : payloadNOf (len7 b1) ≤ rest.length) :
    LengthSound env ws b0 b1 rest ↔
      (payloadNOf (len7 b1) = 8 →
        10 + maskLength b1 + beVal (rest.take 8) < 2 ^ env.machine.bits) := by
  have hframe := frameLength_eq env herr hlen
  rw [← fits_iff env.machine hlen]
  constructor
  · rintro ⟨hsound, -⟩
    rw [← hsound, hframe]
    exact Nat.mod_lt _ (Nat.two_pow_pos _)
  · intro hfits
    have hfield : payloadField env.machine.bits b1 rest = wireLength b1 rest := by
      rw [payloadField_eq, Nat.mod_eq_of_lt (by omega)]
    have hpayload := payloadLengthOf_eq env.machine b1 rest
    rw [← headerLength, hfield, Nat.mod_eq_of_lt hfits] at hpayload
    rw [hfield, Nat.mod_eq_of_lt hfits] at hframe
    refine ⟨hframe, ?_⟩
    rintro v _ _ data rfl hmemory hinput rfl hdata
    rw [hframe, hpayload] at *
    have hkeeps := cbEnsureCapacity_keeps env.machine hwf (wireLength b1 rest)
    rw [hdata] at hkeeps
    have htail := hwf.tail_le
    have hheader : 2 ≤ headerLength b1 := by rw [headerLength]; omega
    exact ⟨hinput, (hkeeps.room rfl (by omega)).1⟩

end Lengths

/-- Memory up to 4 GiB, and callbacks that keep what they are told. -/
def boundedEnv : WsEnv :=
  { keepingEnv with machine := ⟨64, Machine.generous.bits_eq, fun n => decide (n < 2 ^ 32)⟩ }

/-- A frame of five bytes. -/
theorem lengthSound_five : LengthSound boundedEnv wsUpgraded 0x82 5 [] :=
  (lengthSound_iff boundedEnv cbNew_wf (by decide) (by decide)).mpr fun h => nomatch h

/-- **A length that wraps.**  Behind a fragment of five bytes, the second frame says that it has
2^64 - 1: it is taken for one of nine bytes, and the copy leaves the block. -/
theorem lengths_wrap :
    ¬ LengthSound boundedEnv wsUpgraded 0x82 127
        [0xFF, 0xFF, 0xFF, 0xFF, 0xFF, 0xFF, 0xFF, 0xFF] ∧
      (wsOnRecv boundedEnv (wsUpgraded, cbNew) [0x02, 0x85, 1, 1, 1, 1, 1, 2, 3, 4, 5, 0x80, 127,
        0xFF, 0xFF, 0xFF, 0xFF, 0xFF, 0xFF, 0xFF, 0xFF]).1.state = .crashed := by
  refine ⟨fun h => ?_, by decide +kernel⟩
  have hframe := h.frame
  revert hframe
  decide +kernel

end IDeviceStack.WebkitProxy
