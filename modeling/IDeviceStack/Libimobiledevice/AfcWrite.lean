/-
# `Libimobiledevice.AfcWrite` — the count of a write

`afc_file_write` takes what `afc_dispatch_packet` has sent, less the header and the handle,
for what it has written.  A send that is cut short is no error to `afc_dispatch_packet`, so
the result is that of the reply.

* All counts are of 32 bits.  The handle stands in memory in little endian.
* That the client is there, with its packet and its connection, and so is the handle, is
  for the caller.

**Proved here.**  `afcFileWrite_iff`.
-/
import IDeviceStack.Libimobiledevice.AfcReplies

namespace IDeviceStack.Libimobiledevice

open Lib

def AFC_OP_FILE_WRITE : Nat := 16

/-- The arguments of `afc_file_write`; `data` may be `NULL`. -/
structure WriteArgs where
  handle : Nat
  data : Option (List UInt8)
  length : Nat
  length_lt : length < 2 ^ 32
  length_data : ∀ u ∈ data, u.length = length

/-- The request: without data or a length there is no payload. -/
def WriteArgs.request (a : WriteArgs) : AfcRequest where
  operation := AFC_OP_FILE_WRITE
  data := leBytes 8 a.handle
  payload := a.data.getD []
  operation_lt := by decide
  data_lt := by
    rw [length_leBytes]
    decide
  payload_lt := by
    have hlength := a.length_data
    have hlt := a.length_lt
    cases hdata : a.data with
    | none => exact Nat.succ_pos _
    | some u =>
      rw [Option.getD_some, hlength u hdata]
      exact hlt

/-- `sizeof(AFCPacket) + 8`. -/
def writeOverhead : Nat := sizeofAFCPacket + 8

/-- `afc_file_write`, with what can be read then: the result and `*bytes_written`. -/
def afcFileWrite (packetNum : Nat) (a : WriteArgs) (caps : SendCaps) (w : Wire) :
    Except Overflow ((Nat × Nat) × Wire) :=
  let bytesLoc := (afcDispatchPacket packetNum a.request caps).2 % 2 ^ 32
  let currentCount := (bytesLoc + 2 ^ 32 - writeOverhead) % 2 ^ 32
  (afcReceiveData packetNum w).map fun r => ((r.1.error, currentCount), r.2)

/-- The bytes of the payload that were sent. -/
def WriteArgs.payloadSent (a : WriteArgs) (packetNum : Nat) (caps : SendCaps) : List UInt8 :=
  (afcDispatchPacket packetNum a.request caps).1.drop writeOverhead

/-- The count is that of the payload bytes that were sent, and a success means all. -/
def WriteArgs.Accounted (a : WriteArgs) (packetNum : Nat) (caps : SendCaps)
    (result : Except Overflow ((Nat × Nat) × Wire)) : Prop :=
  ∃ error written w, result = .ok ((error, written), w) ∧ written ≤ a.length ∧
    written = (a.payloadSent packetNum caps).length ∧
    (error = AFC_E_SUCCESS → a.length ≤ (a.payloadSent packetNum caps).length)

/-! ## What comes -/

/-- The header that comes first. -/
def Wire.header (w : Wire) : AFCPacket := AFCPacket.fromLE (serviceReceive sizeofAFCPacket w).1

/-- What comes behind it. -/
def Wire.behind (w : Wire) : Wire := (serviceReceive sizeofAFCPacket w).2

/-- A header that passes the checks, and comes at once. -/
structure HeaderAhead (packetNum : Nat) (w : Wire) : Prop where
  arrives : sizeofAFCPacket ≤ (serviceReceive sizeofAFCPacket w).1.length
  packetNum_eq : w.header.packetNum = packetNum
  thisLength_ge : sizeofAFCPacket ≤ w.header.thisLength

/-- The first part of a reply, as far as it comes at once. -/
def Wire.firstPart (w : Wire) : List UInt8 × Wire :=
  receiveFirst (lengthBehindHeader w.header.thisLength) w.behind

/-- The first part of a reply is longer than the block for the whole. -/
structure OverrunAhead (packetNum : Nat) (w : Wire) : Prop where
  header : HeaderAhead packetNum w
  full : ¬ w.header.IsEmpty
  longer : lengthBehindHeader w.header.entireLength < w.firstPart.1.length

/-- What comes up to a read that brings nothing. -/
def allBytes (entireLen : Nat) (first : List UInt8 × Wire) : List UInt8 :=
  (receiveRest entireLen entireLen first.1 first.1.length first.2).1.1

theorem allBytes_eq (entireLen last : Nat) (first : List UInt8 × Wire) :
    (receiveRest entireLen entireLen first.1 last first.2).1.1 = allBytes entireLen first := by
  cases entireLen with
  | zero => rfl
  | succ n =>
    rw [allBytes, receiveRest, receiveRest]
    split
    · rfl
    · rfl

/-- The bytes of a reply. -/
def Wire.replyBytes (w : Wire) : List UInt8 :=
  allBytes (lengthBehindHeader w.header.entireLength) w.firstPart

/-- A reply with data, or with a status of which the low 32 bits are zero. -/
def IsSuccess (operation : Nat) (dump : List UInt8) : Prop :=
  CarriesData operation ∨ operation = AFC_OP_STATUS ∧ param1 dump % 2 ^ 32 = AFC_E_SUCCESS

/-- A reply to the packet that tells a success. -/
structure SuccessAhead (packetNum : Nat) (w : Wire) : Prop where
  header : HeaderAhead packetNum w
  empty : w.header.IsEmpty → w.header.operation = AFC_OP_DATA
  full : ¬ w.header.IsEmpty → lengthBehindHeader w.header.thisLength ≤ w.firstPart.1.length ∧
    IsSuccess w.header.operation w.replyBytes

/-! ## The reply -/

section Reply

variable {packetNum : Nat} {w : Wire}

theorem afcFinish_success_iff (operation : Nat) (dump : List UInt8) (last : Nat) :
    (afcFinish operation dump last).error = AFC_E_SUCCESS ↔ IsSuccess operation dump := by
  rw [IsSuccess]
  by_cases hcarries : CarriesData operation
  · rw [afcFinish_carries hcarries]
    exact iff_of_true rfl (.inl hcarries)
  by_cases hstatus : operation = AFC_OP_STATUS
  · rw [afcFinish, if_pos hstatus]
    split
    · exact ⟨fun h => .inr ⟨hstatus, h⟩, fun h => (h.resolve_left hcarries).2⟩
    · next hzero =>
        refine iff_of_true rfl (.inr ⟨hstatus, ?_⟩)
        rw [not_not.1 hzero]
        rfl
  · rw [afcFinish, if_neg hstatus]
    refine iff_of_false ?_ fun h => hstatus (h.resolve_left hcarries).1
    unfold CarriesData at hcarries
    rw [if_neg hcarries]
    exact show AFC_E_OP_NOT_SUPPORTED ≠ AFC_E_SUCCESS by decide

theorem afcReceiveData_no_header (h : ¬ HeaderAhead packetNum w) :
    ∃ r w', afcReceiveData packetNum w = .ok (r, w') ∧ r.error ≠ AFC_E_SUCCESS := by
  simp only [afcReceiveData]
  split
  · exact ⟨_, _, rfl, show AFC_E_MUX_ERROR ≠ AFC_E_SUCCESS by decide⟩
  · split
    · exact ⟨_, _, rfl, show AFC_E_OP_HEADER_INVALID ≠ AFC_E_SUCCESS by decide⟩
    · split
      · exact ⟨_, _, rfl, show AFC_E_OP_HEADER_INVALID ≠ AFC_E_SUCCESS by decide⟩
      · next harrives hnum hthis =>
          exact absurd ⟨Nat.not_lt.1 harrives, not_not.1 hnum, Nat.not_lt.1 hthis⟩ h

theorem afcReceiveData_header (h : HeaderAhead packetNum w) : afcReceiveData packetNum w =
    if w.header.IsEmpty then
      .ok (⟨if w.header.operation = AFC_OP_DATA then AFC_E_SUCCESS else AFC_E_IO_ERROR, none, 0⟩,
        w.behind)
    else afcReceiveBody w.header w.behind :=
  afcReceiveData_checked rfl h.arrives rfl h.packetNum_eq h.thisLength_ge

/-- `afc_receive_data` returns unless the first part is too long, and then with a success exactly
if one lies ahead. -/
theorem afcReceiveData_returns (packetNum : Nat) (w : Wire) :
    (OverrunAhead packetNum w → afcReceiveData packetNum w = .error .overflow) ∧
    (¬ OverrunAhead packetNum w → ∃ r w', afcReceiveData packetNum w = .ok (r, w') ∧
      (r.error = AFC_E_SUCCESS ↔ SuccessAhead packetNum w)) := by
  by_cases hheader : HeaderAhead packetNum w
  · rw [afcReceiveData_header hheader]
    by_cases hempty : w.header.IsEmpty
    · rw [if_pos hempty]
      refine ⟨fun h => absurd hempty h.full, fun _ => ⟨_, _, rfl, ?_⟩⟩
      constructor
      · intro herror
        refine ⟨hheader, fun _ => ?_, fun hfull => absurd hempty hfull⟩
        by_contra hoperation
        rw [if_neg hoperation] at herror
        exact absurd herror (by decide)
      · exact fun h => if_pos (h.empty hempty)
    · rw [if_neg hempty]
      have hfirst : w.firstPart = receiveFirst (lengthBehindHeader w.header.thisLength) w.behind := by
        rw [Wire.firstPart]
      simp only [afcReceiveBody]
      rw [← hfirst, allBytes_eq, ← Wire.replyBytes]
      refine ⟨fun h => if_pos h.longer, fun h => ?_⟩
      rw [if_neg fun hlonger => h ⟨hheader, hempty, hlonger⟩]
      split
      · next hshort =>
          refine ⟨_, _, rfl, iff_of_false ?_ fun h => ?_⟩
          · exact show AFC_E_NOT_ENOUGH_DATA ≠ AFC_E_SUCCESS by decide
          · exact absurd (h.full hempty).1 (Nat.not_le.2 hshort)
      · next hwhole =>
          refine ⟨_, _, rfl, (afcFinish_success_iff _ _ _).trans ?_⟩
          constructor
          · exact fun h => ⟨hheader, fun he => absurd he hempty, fun _ => ⟨Nat.not_lt.1 hwhole, h⟩⟩
          · exact fun h => (h.full hempty).2
  · refine ⟨fun h => absurd h.header hheader, fun _ => ?_⟩
    obtain ⟨r, w', hr, herror⟩ := afcReceiveData_no_header hheader
    exact ⟨r, w', hr, iff_of_false herror fun h => hheader h.header⟩

end Reply

/-! ## The count -/

section Count

variable {packetNum : Nat} {a : WriteArgs} {caps : SendCaps} {w : Wire}

/-- The header and the handle are sent. -/
def OverheadSent (caps : SendCaps) : Prop := sizeofAFCPacket ≤ caps.header ∧ 8 ≤ caps.data

/-- And all of the data, which is there. -/
def WriteArgs.PayloadWhole (a : WriteArgs) (caps : SendCaps) : Prop :=
  a.length ≤ caps.payload ∧ (a.data = none → a.length = 0)

theorem WriteArgs.length_payload (a : WriteArgs) : a.request.payload.length ≤ a.length ∧
    (a.length ≤ a.request.payload.length ↔ (a.data = none → a.length = 0)) := by
  have hlength := a.length_data
  show (a.data.getD []).length ≤ a.length ∧ (a.length ≤ (a.data.getD []).length ↔ _)
  cases hdata : a.data with
  | none => exact ⟨Nat.zero_le _, fun h _ => Nat.le_zero.1 h, fun h => Nat.le_of_eq (h rfl)⟩
  | some u =>
    rw [Option.getD_some, hlength u hdata]
    exact ⟨Nat.le_refl _, fun _ h => (nomatch h), fun _ => Nat.le_refl _⟩

theorem WriteArgs.dispatch (a : WriteArgs) (hnum : packetNum < 2 ^ 64) (caps : SendCaps) :
    (OverheadSent caps → (afcDispatchPacket packetNum a.request caps).2 =
        writeOverhead + (a.payloadSent packetNum caps).length ∧
      (a.payloadSent packetNum caps).length = min caps.payload a.request.payload.length) ∧
    (¬ OverheadSent caps → (afcDispatchPacket packetNum a.request caps).2 < writeOverhead ∧
      (a.payloadSent packetNum caps).length = 0) := by
  have hheader := AFCPacket.length_toLE (a.request.header_fits hnum)
  have hdata : a.request.data.length = 8 := length_leBytes 8 a.handle
  have hoverhead : writeOverhead = sizeofAFCPacket + 8 := rfl
  have hpositive : 0 < sizeofAFCPacket := by decide
  simp only [OverheadSent, payloadSent, afcDispatchPacket, hdata]
  constructor
  · rintro ⟨hcap, hcapData⟩
    rw [if_neg (by omega), if_neg (by omega)]
    dsimp only
    rw [← List.append_assoc, List.drop_left' (by rw [List.length_append, hheader, hdata, hoverhead]),
      List.length_take]
    omega
  · intro hcut
    by_cases hcap : caps.header < sizeofAFCPacket
    · rw [if_pos (by omega)]
      simp only [List.length_drop, List.length_take]
      omega
    · rw [if_neg (by omega), if_pos (by omega)]
      simp only [List.length_drop, List.length_append, List.length_take]
      omega

/-- **The count of a write.**  The count is that of the payload bytes that were sent, and a success
means that these are all, if and only if the header and the handle are sent, the reply does not
run over its block, and either the data is sent whole or the reply is no success. -/
theorem afcFileWrite_iff (hnum : packetNum < 2 ^ 64) :
    a.Accounted packetNum caps (afcFileWrite packetNum a caps w) ↔
      OverheadSent caps ∧ ¬ OverrunAhead packetNum w ∧
        (a.PayloadWhole caps ∨ ¬ SuccessAhead packetNum w) := by
  obtain ⟨hpayload, hwhole⟩ := a.length_payload
  obtain ⟨hsent, hcut⟩ := a.dispatch hnum caps
  obtain ⟨hover, hreturns⟩ := afcReceiveData_returns packetNum w
  have hlength := a.length_lt
  by_cases hoverrun : OverrunAhead packetNum w
  · refine iff_of_false ?_ fun h => h.2.1 hoverrun
    rintro ⟨error, written, w', hresult, -⟩
    rw [afcFileWrite, hover hoverrun] at hresult
    cases hresult
  obtain ⟨r, w', hr, hsuccess⟩ := hreturns hoverrun
  have hcall : a.Accounted packetNum caps (afcFileWrite packetNum a caps w) ↔
      ((afcDispatchPacket packetNum a.request caps).2 % 2 ^ 32 + 2 ^ 32 - writeOverhead) % 2 ^ 32 =
        (a.payloadSent packetNum caps).length ∧ (a.payloadSent packetNum caps).length ≤ a.length ∧
        (SuccessAhead packetNum w → a.length ≤ (a.payloadSent packetNum caps).length) := by
    rw [afcFileWrite, hr, ← hsuccess]
    constructor
    · rintro ⟨error, written, w'', hresult, hle, hwritten, hall⟩
      cases hresult
      exact ⟨hwritten, hwritten ▸ hle, hall⟩
    · rintro ⟨hwritten, hle, hall⟩
      exact ⟨_, _, _, rfl, hwritten ▸ hle, hwritten, hall⟩
  rw [hcall]
  have hoverhead : writeOverhead = 48 := rfl
  by_cases hheads : OverheadSent caps
  · obtain ⟨hcount, hlen⟩ := hsent hheads
    rw [hcount]
    have hcurrent : ((writeOverhead + (a.payloadSent packetNum caps).length) % 2 ^ 32 + 2 ^ 32 -
        writeOverhead) % 2 ^ 32 = (a.payloadSent packetNum caps).length := by
      omega
    have hpart : a.length ≤ (a.payloadSent packetNum caps).length ↔ a.PayloadWhole caps := by
      rw [hlen, WriteArgs.PayloadWhole, ← hwhole, Nat.le_min]
    rw [hpart]
    constructor
    · rintro ⟨-, -, hall⟩
      refine ⟨hheads, hoverrun, ?_⟩
      by_cases hahead : SuccessAhead packetNum w
      · exact .inl (hall hahead)
      · exact .inr hahead
    · rintro ⟨-, -, hall⟩
      refine ⟨hcurrent, by omega, fun hahead => hall.resolve_right fun hno => hno hahead⟩
  · obtain ⟨hcount, hnone⟩ := hcut hheads
    refine iff_of_false (fun h => ?_) fun h => hheads h.1
    omega

end Count

/-! ## Two writes -/

/-- Five bytes are written to the handle 1. -/
def writeHello : WriteArgs where
  handle := 1
  data := some [0x68, 0x65, 0x6c, 0x6c, 0x6f]
  length := 5
  length_lt := by decide
  length_data u hu := by
    rw [← Option.some.inj hu]
    rfl

/-- The reply of a device that has taken them. -/
def writeDone : List UInt8 := AFCPacket.toLE ⟨afcMagic, 48, 48, 1, AFC_OP_STATUS⟩ ++ leBytes 8 0

theorem afcFileWrite_whole :
    writeHello.Accounted 1 ⟨40, 8, 5⟩ (afcFileWrite 1 writeHello ⟨40, 8, 5⟩ ⟨writeDone, []⟩) := by
  refine (afcFileWrite_iff (by decide)).2 ⟨⟨by decide, by decide⟩, fun h => ?_, .inl ⟨by decide, ?_⟩⟩
  · exact absurd h.longer (by decide +kernel)
  · exact nofun

/-- No byte is sent, and the count is `2 ^ 32 - 48`; and with three bytes of five, a success is
reported. -/
theorem afcFileWrite_refuted :
    ¬ writeHello.Accounted 1 ⟨0, 0, 0⟩ (afcFileWrite 1 writeHello ⟨0, 0, 0⟩ ⟨[], []⟩) ∧
    ¬ writeHello.Accounted 1 ⟨40, 8, 3⟩ (afcFileWrite 1 writeHello ⟨40, 8, 3⟩ ⟨writeDone, []⟩) := by
  have hnothing : ((afcFileWrite 1 writeHello ⟨0, 0, 0⟩ ⟨[], []⟩).toOption.map Prod.fst) =
      some (AFC_E_MUX_ERROR, 2 ^ 32 - 48) := by decide +kernel
  have hshort : ((afcFileWrite 1 writeHello ⟨40, 8, 3⟩ ⟨writeDone, []⟩).toOption.map Prod.fst) =
      some (AFC_E_SUCCESS, 3) := by decide +kernel
  constructor
  · rintro ⟨error, written, w, hresult, hle, -⟩
    rw [hresult] at hnothing
    cases hnothing
    exact absurd hle (by decide +kernel)
  · rintro ⟨error, written, w, hresult, -, -, hall⟩
    rw [hresult] at hshort
    cases hshort
    exact absurd (hall rfl) (by decide +kernel)

end IDeviceStack.Libimobiledevice
