/-
# `Usbmuxd.Slices` — the payload of a mux packet

`device_data_input` hands each packet to the function for its protocol, as pointers into
the packet and a length.  The header has 8 bytes up to version 1 and 16 bytes from
version 2 on.

The version and the TCP branch count from the end of that header and first ask whether
the packet is long enough.  The control branch does neither: its payload begins behind
`struct mux_header`, which has 16 bytes in every version, and its length is what is left
behind the header.  So the payload of a control packet lies inside the packet exactly if
the version is 2 and the packet has its 16 bytes (`slices_inside_iff`).
-/
import IDeviceStack.Usbmuxd.DataInput

namespace IDeviceStack.Usbmuxd

open Lib

variable {κ : Type}

/-! ## What is handed on -/

/-- What the functions for the protocols get: offsets in the packet, and lengths. -/
inductive Handed where
  | version (vh : Nat)
  | control (payload : Nat) (payloadLength : U32)
  | tcp (th payload : Nat) (payloadLength : U32)
  deriving DecidableEq, Repr

/-- The `switch` of `device_data_input`. -/
def handed (dev : MuxDevice) (buffer : List UInt8) (length : Nat) : Option Handed :=
  let headerSize := muxHeaderSize dev
  match mhdrProtocol buffer with
  | 0 => if length < headerSize + sizeofVersionHeader then none else some (.version headerSize)
  | 1 =>
    some (.control sizeofMuxHeader (BitVec.ofNat 32 length - BitVec.ofNat 32 headerSize))
  | 6 =>
    if length < headerSize + sizeofTcphdr then none
    else
      some (.tcp headerSize (headerSize + sizeofTcphdr)
        (BitVec.ofNat 32 length - BitVec.ofNat 32 sizeofTcphdr - BitVec.ofNat 32 headerSize))
  | _ => none

/-- What is handed on lies in a packet of `length` bytes, and no length has wrapped around. -/
def Handed.Inside (headerSize length : Nat) : Handed → Prop
  | .version vh => vh + sizeofVersionHeader ≤ length
  | .control payload n => payload + n.toNat ≤ length ∧ headerSize + n.toNat = length
  | .tcp th payload n =>
    th + sizeofTcphdr ≤ length ∧ payload + n.toNat ≤ length ∧
      headerSize + sizeofTcphdr + n.toNat = length

instance (headerSize length : Nat) : (h : Handed) → Decidable (h.Inside headerSize length)
  | .version _ => inferInstanceAs (Decidable (_ ≤ _))
  | .control _ _ => inferInstanceAs (Decidable (_ ∧ _))
  | .tcp _ _ _ => inferInstanceAs (Decidable (_ ∧ _ ∧ _))

/-- A line of the log. -/
inductive ControlLine where
  | noPayload
  | emptyError
  | error (text : List UInt8)
  | info (text : List UInt8)
  deriving DecidableEq, Repr

/-- `device_control_input`: what it writes to the log.  `buffer` is all the memory from the packet
on. -/
def deviceControlInput (buffer : List UInt8) (payload : Nat) (payloadLength : U32) :
    Option ControlLine :=
  let n := payloadLength.toNat
  let text := ((buffer.drop (payload + 1)).take (n - 1)).takeWhile (· ≠ 0)
  if n > 0 then
    match (buffer.getD payload 0).toNat with
    | 3 => some (if n > 1 then .error text else .emptyError)
    | 7 => if n > 1 then some (.info text) else none
    | _ => none
  else some .noPayload

/-! ## Lengths -/

theorem headerSize_cases (dev : MuxDevice) :
    dev.version < 2 ∧ muxHeaderSize dev = 8 ∨ 2 ≤ dev.version ∧ muxHeaderSize dev = 16 := by
  rw [muxHeaderSize]
  split
  · exact .inl ⟨‹_›, rfl⟩
  · exact .inr ⟨by omega, rfl⟩

theorem toNat_sub_header {length headerSize : Nat} (hlen : length ≤ devMru) (hsize : headerSize ≤ 16) :
    (BitVec.ofNat 32 length - BitVec.ofNat 32 headerSize).toNat =
      if headerSize ≤ length then length - headerSize else 2 ^ 32 + length - headerSize := by
  rw [devMru] at hlen
  rw [BitVec.toNat_sub, BitVec.toNat_ofNat, BitVec.toNat_ofNat]
  split <;> omega

theorem toNat_tcp_length {length headerSize : Nat} (hlen : length ≤ devMru)
    (hfit : headerSize + sizeofTcphdr ≤ length) :
    (BitVec.ofNat 32 length - BitVec.ofNat 32 sizeofTcphdr - BitVec.ofNat 32 headerSize).toNat =
      length - sizeofTcphdr - headerSize := by
  rw [devMru] at hlen
  rw [sizeofTcphdr] at *
  rw [BitVec.toNat_sub, BitVec.toNat_sub, BitVec.toNat_ofNat, BitVec.toNat_ofNat, BitVec.toNat_ofNat]
  omega

/-! ## Packets -/

theorem gather_length_le {d d' : UsbDevice κ} {buffer buffer' : List UInt8} {length length' : Nat}
    (h : gather d buffer length = (d', some (buffer', length'))) :
    1 ≤ length' ∧ length' ≤ devMru ∧ d'.dev = d.dev := by
  rw [gather] at h
  split at h
  · cases h
  split at h
  · cases h
  split at h
  · split at h
    · cases h
    · dsimp only at h
      split at h
      · cases h
        exact ⟨by omega, by omega, rfl⟩
      · cases h
  · split at h
    · cases h
    · cases h
      exact ⟨by omega, by omega, rfl⟩

/-- **Where payloads lie.**  A packet that was put together is handed on inside its bounds, unless
it is a control packet: then exactly if the device has version 2 and the packet has a whole
header.  It makes no difference whether its header says the right length. -/
theorem slices_inside_iff {d d' : UsbDevice κ} {buffer buffer' : List UInt8} {length length' : Nat}
    (hgather : gather d buffer length = (d', some (buffer', length'))) :
    (∀ h, handed d'.dev buffer' length' = some h → h.Inside (muxHeaderSize d'.dev) length') ↔
      (mhdrProtocol buffer' = 1 → 2 ≤ d'.dev.version ∧ 16 ≤ length') := by
  obtain ⟨-, hlen, -⟩ := gather_length_le hgather
  by_cases hversion : mhdrProtocol buffer' = 0
  · refine iff_of_true (fun h hh => ?_) (by omega)
    simp only [handed, hversion] at hh
    split at hh
    · cases hh
    · cases hh
      exact Nat.le_of_not_lt ‹_›
  by_cases hcontrol : mhdrProtocol buffer' = 1
  · simp only [handed, hcontrol, Option.some.injEq, forall_eq', Handed.Inside, sizeofMuxHeader,
      true_imp_iff]
    rcases headerSize_cases d'.dev with ⟨hold, hsize⟩ | ⟨hnew, hsize⟩
    · have hsub := toNat_sub_header hlen (show 8 ≤ 16 by omega)
      rw [hsize, hsub]
      split <;> omega
    · have hsub := toNat_sub_header hlen (show 16 ≤ 16 by omega)
      rw [hsize, hsub]
      split <;> omega
  by_cases htcp : mhdrProtocol buffer' = 6
  · refine iff_of_true (fun h hh => ?_) (by omega)
    simp only [handed, htcp] at hh
    split at hh
    · cases hh
    · have hfit := Nat.le_of_not_lt ‹_›
      cases hh
      rw [Handed.Inside, toNat_tcp_length hlen hfit]
      omega
  · refine iff_of_true (fun h hh => ?_) (fun h => absurd h hcontrol)
    rw [handed] at hh
    split at hh <;> simp_all

/-- A device of some version, with an empty packet buffer. -/
def deviceOf (version : Nat) : UsbDevice Unit := ⟨1, ⟨.active, version, 0, 0⟩, [], 0, ()⟩

/-- A control packet of version 1 with a text of three bytes, and what an older transfer left
behind it. -/
def controlPacket : List UInt8 :=
  [0, 0, 0, 1, 0, 0, 0, 12, 3, 0x61, 0x62, 0x63, 0, 0, 0, 0, 7, 0x73, 0x74, 0x61, 0x6C, 0x65]

/-- A control packet of version 2 with its header alone. -/
def emptyControl : List UInt8 := [0, 0, 0, 1, 0, 0, 0, 16, 0xFE, 0xED, 0xFA, 0xCE, 0, 0, 0, 0]

theorem slices_inside_emptyControl :
    (handed (deviceOf 2).dev emptyControl 16).isSome ∧
      ∀ h, handed (deviceOf 2).dev emptyControl 16 = some h →
        h.Inside (muxHeaderSize (deviceOf 2).dev) 16 :=
  ⟨by decide, (slices_inside_iff (show gather (deviceOf 2) emptyControl 16 =
    (deviceOf 2, some (emptyControl, 16)) from rfl)).mpr fun _ => ⟨by decide, by decide⟩⟩

/-- The text of the packet of version 1 is passed over, and what is logged instead is what lies
behind the packet.  A packet of 9 bytes makes the length wrap around in version 2. -/
theorem control_payload_outside :
    gather (deviceOf 1) controlPacket 12 = (deviceOf 1, some (controlPacket, 12)) ∧
      mhdrLength controlPacket = 12 ∧
      handed (deviceOf 1).dev controlPacket 12 = some (.control 16 4) ∧
      ¬ (Handed.control 16 4).Inside 8 12 ∧
      deviceControlInput controlPacket 16 4 = some (.info [0x73, 0x74, 0x61]) ∧
      handed (deviceOf 2).dev [0, 0, 0, 1, 0, 0, 0, 9, 3] 9 = some (.control 16 4294967289) := by
  refine ⟨rfl, ?_⟩
  decide +kernel

end IDeviceStack.Usbmuxd
