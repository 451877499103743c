/-
# `Libimobiledevice.AfcReplies` — the two lengths of a reply

A reply tells its length and that of its first part, each in 64 bits.  `afc_receive_data`
cuts both to 32, allocates the one and reads the other into it; `afc_file_open` and
`afc_file_tell` copy eight bytes out of what came.

* Of `afc_file_open` and `afc_file_tell` this is the part behind the request.  The handle
  is copied as it is, the position is turned from little endian.

**Proved here.**  `replyBounded_iff`.
-/
import IDeviceStack.Libimobiledevice.Afc

namespace IDeviceStack.Libimobiledevice

open Lib List

/-! ## The callers -/

/-- A copy of more bytes than there are. -/
inductive Overread where
  | overread

/-- `memcpy` of a `uint64_t` out of a reply. -/
def memcpyUint64 (data : List UInt8) : Except Overread (List UInt8) :=
  if data.length < 8 then .error .overread else .ok (data.take 8)

/-- The end of `afc_file_open`: the result, and `*handle` if it is set. -/
def afcFileOpenEnd (r : AfcResult) : Except Overread (Nat × Option (List UInt8)) :=
  match r.bytes with
  | none => .ok (r.error, none)
  | some data =>
    if r.error = AFC_E_SUCCESS ∧ r.bytesRecv > 0 then
      (memcpyUint64 data).map fun handle => (r.error, some handle)
    else .ok (r.error, none)

/-- The end of `afc_file_tell`: the result, and `*position` if it is set. -/
def afcFileTellEnd (r : AfcResult) : Except Overread (Nat × Option Nat) :=
  match r.bytes with
  | none => .ok (r.error, none)
  | some data =>
    if r.bytesRecv > 0 then
      (memcpyUint64 data).map fun position => (r.error, some (leVal position))
    else .ok (r.error, none)

/-! ## Bounds -/

/-- A header that passes the checks. -/
structure Accepted (packetNum : Nat) (header : AFCPacket) : Prop where
  fits : header.Fits
  packetNum_eq : header.packetNum = packetNum
  thisLength_ge : sizeofAFCPacket ≤ header.thisLength

/-- "Empty AFCPacket". -/
def AFCPacket.IsEmpty (header : AFCPacket) : Prop :=
  header.thisLength = header.entireLength ∧ header.entireLength = sizeofAFCPacket

instance (header : AFCPacket) : Decidable header.IsEmpty := inferInstanceAs (Decidable (_ ∧ _))

/-- A length that is neither cut nor wrapped. -/
structure Narrowed (length : Nat) : Prop where
  cut : length % 2 ^ 32 = length
  subtracted : sizeofAFCPacket ≤ length % 2 ^ 32

/-- Nothing is read or written out of bounds when these bytes follow the header, in reads with
these caps. -/
structure ReplyBounded (packetNum : Nat) (header : AFCPacket) (following : List UInt8)
    (caps : List Nat) : Prop where
  entireLength : Narrowed header.entireLength
  thisLength : Narrowed header.thisLength
  /-- What is read fits into `dump_here`. -/
  written : ∃ r w, afcReceiveData packetNum
    ⟨header.toLE ++ following, sizeofAFCPacket :: caps⟩ = .ok (r, w)
  opened : ∀ r w, afcReceiveData packetNum
    ⟨header.toLE ++ following, sizeofAFCPacket :: caps⟩ = .ok (r, w) → ∃ x, afcFileOpenEnd r = .ok x
  told : ∀ r w, afcReceiveData packetNum
    ⟨header.toLE ++ following, sizeofAFCPacket :: caps⟩ = .ok (r, w) → ∃ x, afcFileTellEnd r = .ok x

/-- The replies that come with data. -/
def CarriesData (operation : Nat) : Prop :=
  operation = AFC_OP_DATA ∨ operation = AFC_OP_FILE_OPEN_RES ∨ operation = AFC_OP_FILE_TELL_RES

instance (operation : Nat) : Decidable (CarriesData operation) :=
  inferInstanceAs (Decidable (_ ∨ _))

/-- The lengths fit into 32 bits, the first part into the whole, and a value of eight bytes into the
first part of a reply with data, unless it is empty. -/
structure InRange (header : AFCPacket) : Prop where
  entireLength_lt : header.entireLength < 2 ^ 32
  thisLength_le : header.thisLength ≤ header.entireLength
  room : CarriesData header.operation →
    sizeofAFCPacket + 8 ≤ header.thisLength ∨ header.entireLength = sizeofAFCPacket

section Header

variable {packetNum : Nat} {header : AFCPacket} {following : List UInt8} {caps : List Nat}

theorem narrowed_iff {length : Nat} :
    Narrowed length ↔ length < 2 ^ 32 ∧ sizeofAFCPacket ≤ length := by
  constructor
  · rintro ⟨hcut, hsub⟩
    have hlt := Nat.mod_lt length (show 2 ^ 32 > 0 by decide)
    omega
  · rintro ⟨hlt, hle⟩
    have hcut := Nat.mod_eq_of_lt hlt
    exact ⟨hcut, by omega⟩

theorem Narrowed.behindHeader {length : Nat} (h : Narrowed length) :
    lengthBehindHeader length = length - sizeofAFCPacket := by
  obtain ⟨hlt, hle⟩ := narrowed_iff.1 h
  rw [lengthBehindHeader, sizeofAFCPacket]
  rw [sizeofAFCPacket] at hle
  omega

theorem afcReceiveData_checked {w rest : Wire} {bytes : List UInt8}
    (hread : serviceReceive sizeofAFCPacket w = (bytes, rest))
    (harrives : sizeofAFCPacket ≤ bytes.length) (hfrom : AFCPacket.fromLE bytes = header)
    (hnum : header.packetNum = packetNum) (hthis : sizeofAFCPacket ≤ header.thisLength) :
    afcReceiveData packetNum w =
      if header.IsEmpty then
        .ok (⟨if header.operation = AFC_OP_DATA then AFC_E_SUCCESS else AFC_E_IO_ERROR, none, 0⟩,
          rest)
      else afcReceiveBody header rest := by
  simp only [afcReceiveData, hread, hfrom]
  rw [if_neg (Nat.not_lt.2 harrives), if_neg (not_not.2 hnum), if_neg (Nat.not_lt.2 hthis)]
  rfl

theorem Accepted.receive (h : Accepted packetNum header) :
    afcReceiveData packetNum ⟨header.toLE ++ following, sizeofAFCPacket :: caps⟩ =
      if header.IsEmpty then
        .ok (⟨if header.operation = AFC_OP_DATA then AFC_E_SUCCESS else AFC_E_IO_ERROR, none, 0⟩,
          ⟨following, caps⟩)
      else afcReceiveBody header ⟨following, caps⟩ := by
  have hhead := AFCPacket.length_toLE h.fits
  have hread : serviceReceive sizeofAFCPacket ⟨header.toLE ++ following, sizeofAFCPacket :: caps⟩ =
      (header.toLE, ⟨following, caps⟩) := by
    simp only [serviceReceive, headD_cons, tail_cons]
    rw [Nat.min_self, take_left' hhead, drop_left' hhead]
  have hfrom : AFCPacket.fromLE header.toLE = header := by
    have hall := AFCPacket.fromLE_toLE h.fits []
    rwa [append_nil] at hall
  exact afcReceiveData_checked hread (Nat.le_of_eq hhead.symm) hfrom h.packetNum_eq h.thisLength_ge

theorem InRange.narrowed (h : Accepted packetNum header) (hrange : InRange header) :
    Narrowed header.entireLength ∧ Narrowed header.thisLength := by
  have hge := h.thisLength_ge
  have hlt := hrange.entireLength_lt
  have hle := hrange.thisLength_le
  exact ⟨narrowed_iff.2 ⟨hlt, by omega⟩, narrowed_iff.2 ⟨by omega, hge⟩⟩

theorem afcFinish_bytes {operation last : Nat} {dump : List UInt8} :
    (afcFinish operation dump last).bytes = none ∨
      (afcFinish operation dump last).bytes = some dump ∧
        (CarriesData operation ∨ 8 ≤ dump.length) := by
  rw [afcFinish]
  split
  · split
    · exact .inl rfl
    · next hparam =>
        refine .inr ⟨rfl, .inr ?_⟩
        by_contra hshort
        -- without eight bytes the status is `-1`
        rw [param1, if_neg hshort] at hparam
        exact hparam (by decide)
  · split
    · next hdata => exact .inr ⟨rfl, .inl hdata⟩
    · exact .inl rfl

theorem afcFinish_carries {operation : Nat} (h : CarriesData operation) (dump : List UInt8)
    (last : Nat) : afcFinish operation dump last = ⟨AFC_E_SUCCESS, some dump, dump.length⟩ := by
  have hstatus : operation ≠ AFC_OP_STATUS := by
    rintro rfl
    exact absurd h (by decide)
  rw [afcFinish, if_neg hstatus]
  exact if_pos h

theorem ends_ok {r : AfcResult} (h : ∀ data, r.bytes = some data → 8 ≤ data.length) :
    (∃ x, afcFileOpenEnd r = .ok x) ∧ ∃ x, afcFileTellEnd r = .ok x := by
  rw [afcFileOpenEnd, afcFileTellEnd]
  cases hbytes : r.bytes with
  | none => exact ⟨⟨_, rfl⟩, _, rfl⟩
  | some data =>
    have hcopy : memcpyUint64 data = .ok (data.take 8) := if_neg (Nat.not_lt.2 (h data hbytes))
    dsimp only
    rw [hcopy]
    constructor
    · split <;> exact ⟨_, rfl⟩
    · split <;> exact ⟨_, rfl⟩

theorem length_le_receiveRest (entireLen fuel : Nat) (dump : List UInt8) (last : Nat) (w : Wire) :
    dump.length ≤ (receiveRest entireLen fuel dump last w).1.1.length := by
  induction fuel generalizing dump last w with
  | zero => exact Nat.le_refl _
  | succ fuel ih =>
    rw [receiveRest]
    split
    · dsimp only
      split
      · exact Nat.le_refl _
      · refine Nat.le_trans ?_ (ih _ _ _)
        rw [length_append]
        exact Nat.le_add_right _ _
    · exact Nat.le_refl _

theorem afcReceiveBody_ok {w : Wire}
    (hle : lengthBehindHeader header.thisLength ≤ lengthBehindHeader header.entireLength) :
    ∃ r w', afcReceiveBody header w = .ok (r, w') ∧ ∀ data, r.bytes = some data →
      lengthBehindHeader header.thisLength ≤ data.length ∧
        (CarriesData header.operation ∨ 8 ≤ data.length) := by
  have hfirst := length_receiveFirst (lengthBehindHeader header.thisLength) w
  simp only [afcReceiveBody]
  rw [if_neg (by omega)]
  split
  · exact ⟨_, _, rfl, by simp⟩
  · refine ⟨_, _, rfl, fun data hdata => ?_⟩
    have hgrow := length_le_receiveRest (lengthBehindHeader header.entireLength)
      (lengthBehindHeader header.entireLength)
      (receiveFirst (lengthBehindHeader header.thisLength) w).1
      (if lengthBehindHeader header.thisLength > 0 then
        (receiveFirst (lengthBehindHeader header.thisLength) w).1.length else sizeofAFCPacket)
      (receiveFirst (lengthBehindHeader header.thisLength) w).2
    rcases afcFinish_bytes with hnone | ⟨hsome, hdump⟩
    · rw [hnone] at hdata
      cases hdata
    · rw [hsome] at hdata
      obtain rfl := Option.some.inj hdata
      exact ⟨by omega, hdump⟩

theorem InRange.replyBounded (h : Accepted packetNum header) (hrange : InRange header) :
    ReplyBounded packetNum header following caps := by
  obtain ⟨hentire, hthis⟩ := hrange.narrowed h
  have hresult : ∃ r w, afcReceiveData packetNum
      ⟨header.toLE ++ following, sizeofAFCPacket :: caps⟩ = .ok (r, w) ∧
      ∀ data, r.bytes = some data → 8 ≤ data.length := by
    rw [h.receive]
    split
    · exact ⟨_, _, rfl, nofun⟩
    · next hfull =>
        have hle := hrange.thisLength_le
        have hge := h.thisLength_ge
        obtain ⟨r, w, hbody, hbytes⟩ := @afcReceiveBody_ok header ⟨following, caps⟩ (by
          rw [hthis.behindHeader, hentire.behindHeader]
          omega)
        refine ⟨r, w, hbody, fun data hdata => ?_⟩
        obtain ⟨hfirst, hcarries | hlong⟩ := hbytes data hdata
        · rw [hthis.behindHeader] at hfirst
          rcases hrange.room hcarries with hroom | hempty
          · omega
          · exact absurd ⟨by omega, hempty⟩ hfull
        · exact hlong
  obtain ⟨r, w, hr, hbytes⟩ := hresult
  have hends := ends_ok hbytes
  refine ⟨hentire, hthis, ⟨r, w, hr⟩, fun r' w' hr' => ?_, fun r' w' hr' => ?_⟩
  · rw [hr] at hr'
    cases hr'
    exact hends.1
  · rw [hr] at hr'
    cases hr'
    exact hends.2

theorem afcReceiveBody_overflow {t e : Nat} (hthis : lengthBehindHeader header.thisLength = t)
    (hentire : lengthBehindHeader header.entireLength = e) (hlt : e < t) :
    afcReceiveBody header ⟨List.replicate t 0, []⟩ = .error .overflow := by
  have hfirst := length_receiveFirst t ⟨List.replicate t 0, []⟩
  simp only [headD_nil, Nat.min_self, length_replicate] at hfirst
  simp only [afcReceiveBody, hthis, hentire]
  rw [if_pos (by omega)]

theorem receiveRest_end (entireLen fuel : Nat) (dump : List UInt8) (last : Nat) :
    (receiveRest entireLen fuel dump last ⟨[], []⟩).1.1 = dump := by
  cases fuel with
  | zero => rfl
  | succ fuel =>
    have hread : serviceReceive (entireLen - dump.length) ⟨[], []⟩ = ([], ⟨[], []⟩) := by
      simp [serviceReceive]
    rw [receiveRest, hread]
    split <;> rfl

theorem receiveRest_all {entireLen : Nat} {dump stream : List UInt8} (last : Nat)
    (hroom : dump.length + stream.length ≤ entireLen) :
    (receiveRest entireLen entireLen dump last ⟨stream, []⟩).1.1 = dump ++ stream := by
  cases hstream : stream with
  | nil => rw [receiveRest_end, append_nil]
  | cons b rest =>
    rw [← hstream]
    have hpos : 0 < stream.length := by
      rw [hstream]
      exact Nat.succ_pos _
    have hread : serviceReceive (entireLen - dump.length) ⟨stream, []⟩ = (stream, ⟨[], []⟩) := by
      simp only [serviceReceive, headD_nil, Nat.min_self, tail_nil]
      rw [take_of_length_le (by omega), drop_of_length_le (by omega)]
    obtain ⟨fuel, hfuel⟩ : ∃ fuel, entireLen = fuel + 1 := ⟨entireLen - 1, by omega⟩
    rw [show receiveRest entireLen entireLen dump last ⟨stream, []⟩ =
      receiveRest entireLen (fuel + 1) dump last ⟨stream, []⟩ by rw [← hfuel]]
    rw [receiveRest, if_pos (by omega), hread]
    dsimp only
    rw [if_neg (length_pos_iff.1 hpos), receiveRest_end]

theorem afcReceiveBody_short {t e k : Nat} (hthis : lengthBehindHeader header.thisLength = t)
    (hentire : lengthBehindHeader header.entireLength = e) (hcarries : CarriesData header.operation)
    (htk : t ≤ k) (hke : k ≤ e) :
    ∃ w, afcReceiveBody header ⟨List.replicate k 0, []⟩ =
      .ok (⟨AFC_E_SUCCESS, some (List.replicate k 0), k⟩, w) := by
  have happend := receiveFirst_append t ⟨List.replicate k 0, []⟩
  have hlength := length_receiveFirst t ⟨List.replicate k 0, []⟩
  have hcaps := caps_receiveFirst t ⟨List.replicate k 0, []⟩
  simp only [afcReceiveBody, hthis, hentire]
  generalize receiveFirst t ⟨List.replicate k 0, []⟩ = first at happend hlength hcaps ⊢
  obtain ⟨dump, stream, caps⟩ := first
  simp only [headD_nil, Nat.min_self, length_replicate, tail_nil, ite_self] at *
  subst hcaps
  have hsum := congrArg List.length happend
  rw [length_append, length_replicate] at hsum
  have hdump := receiveRest_all (if t > 0 then dump.length else sizeofAFCPacket) (show dump.length + stream.length ≤ e by omega)
  rw [happend] at hdump
  rw [if_neg (by omega), if_neg (by omega), hdump, afcFinish_carries hcarries, length_replicate]
  exact ⟨_, rfl⟩

/-- **Bounds of a reply.**  For an accepted header, neither length wraps, nothing is written behind
`dump_here` and no eight bytes are copied out of fewer, whatever comes behind it, if and only if
the lengths fit into 32 bits, the first part fits into the whole, and a reply with data has a first
part of eight bytes or is empty. -/
theorem replyBounded_iff (h : Accepted packetNum header) :
    (∀ following caps, ReplyBounded packetNum header following caps) ↔ InRange header := by
  refine ⟨fun hall => ?_, fun hrange following caps => hrange.replyBounded h⟩
  have hentire := (hall [] []).entireLength
  have hthis := (hall [] []).thisLength
  obtain ⟨hlt, hge⟩ := narrowed_iff.1 hentire
  have hle : header.thisLength ≤ header.entireLength := by
    by_contra hlong
    obtain ⟨r, w, hr⟩ := (hall (List.replicate (header.thisLength - sizeofAFCPacket) 0) []).written
    rw [h.receive, if_neg fun hempty => hlong (Nat.le_of_eq hempty.1),
      afcReceiveBody_overflow hthis.behindHeader hentire.behindHeader (by omega)] at hr
    cases hr
  refine ⟨hlt, hle, fun hcarries => ?_⟩
  by_contra hroom
  obtain ⟨hshort, hfull⟩ := not_or.1 hroom
  have hthisLength := h.thisLength_ge
  -- a first part of less than eight bytes, or one byte behind an empty one
  obtain ⟨k, hk, hkpos, hk8, hke⟩ : ∃ k, header.thisLength - sizeofAFCPacket ≤ k ∧ 0 < k ∧ k < 8 ∧
      k ≤ header.entireLength - sizeofAFCPacket :=
    ⟨max 1 (header.thisLength - sizeofAFCPacket), by omega⟩
  obtain ⟨w, hbody⟩ := afcReceiveBody_short hthis.behindHeader hentire.behindHeader hcarries hk hke
  obtain ⟨x, hx⟩ := (hall (List.replicate k 0) []).opened
    ⟨AFC_E_SUCCESS, some (List.replicate k 0), k⟩ w (by
      rw [h.receive, if_neg fun hempty => hfull hempty.2, hbody])
  have hover : memcpyUint64 (List.replicate k 0) = .error .overread :=
    if_pos (by rw [length_replicate]; exact hk8)
  rw [afcFileOpenEnd] at hx
  dsimp only at hx
  rw [if_pos ⟨rfl, hkpos⟩, hover] at hx
  cases hx

end Header

/-! ## A header in range, and three that are not -/

def openReply (entireLength thisLength : Nat) : AFCPacket :=
  ⟨afcMagic, entireLength, thisLength, 1, AFC_OP_FILE_OPEN_RES⟩

theorem openReply_accepted {entireLength thisLength : Nat} (hentire : entireLength < 2 ^ 64)
    (hthis : thisLength < 2 ^ 64) (hge : sizeofAFCPacket ≤ thisLength) :
    Accepted 1 (openReply entireLength thisLength) :=
  ⟨⟨rfl, hentire, hthis, by show 1 < 2 ^ 64; decide, by show 14 < 2 ^ 64; decide⟩, rfl, hge⟩

/-- A reply with a handle is safe, whatever comes, and one that tells less than it has is not. -/
theorem replyBounded_open : (∀ following caps, ReplyBounded 1 (openReply 48 48) following caps) ∧
    ¬ ∀ following caps, ReplyBounded 1 (openReply 47 48) following caps := by
  constructor
  · exact (replyBounded_iff (openReply_accepted (by decide) (by decide) (by decide))).2
      ⟨by decide, by decide, fun _ => .inl (by decide)⟩
  · rw [replyBounded_iff (openReply_accepted (by decide) (by decide) (by decide))]
    exact fun hrange => absurd hrange.thisLength_le (by decide)

/-- A first part of two bytes in a block of one, a block of no bytes less forty, and a handle of
one byte. -/
theorem replyBounded_refuted : ¬ ReplyBounded 1 (openReply 41 42) [0, 0] [] ∧
    ¬ ReplyBounded 1 (openReply 0 48) [] [] ∧ ¬ ReplyBounded 1 (openReply 41 41) [0] [] := by
  refine ⟨fun h => ?_, fun h => ?_, fun h => ?_⟩
  · obtain ⟨r, w, hr⟩ := h.written
    have hover : (afcReceiveData 1 ⟨(openReply 41 42).toLE ++ [0, 0], [sizeofAFCPacket]⟩).toBool =
        false := by decide +kernel
    rw [hr] at hover
    cases hover
  · exact absurd h.entireLength.subtracted (by decide +kernel)
  · have haccepted : Accepted 1 (openReply 41 41) :=
      openReply_accepted (by decide) (by decide) (by decide)
    obtain ⟨w, hbody⟩ := @afcReceiveBody_short (openReply 41 41) 1 1 1 (by decide) (by decide)
      (by decide) (by decide) (by decide)
    obtain ⟨x, hx⟩ := h.opened ⟨AFC_E_SUCCESS, some (List.replicate 1 0), 1⟩ w (by
      rw [haccepted.receive, if_neg (by decide)]
      exact hbody)
    cases hx

end IDeviceStack.Libimobiledevice
