/-
# `Usbmuxd.DataInput` — mux packets out of USB transfers

`device_data_input` of `usbmuxd/src/device.c`: the device is looked up, a packet
that came in several transfers is put together in `pktbuf`, and the whole packet
goes to its protocol.

* A transfer is a buffer and a length.  The buffer may be longer than the length:
  behind the transfer it has bytes of an older one, and the code looks at the
  header without asking whether it is all there.
* `device_tcp_input` is a parameter here.  It works on the connections and moves
  `tx_seq`, and it is modelled in `Usbmuxd.Connection`.  `device_control_input`
  writes a line to the log, nothing else.
* `device_version_input` takes a device of an unknown version off the list: no
  later transfer finds it.

**Proved here.**  `deviceDataInput_reassembles`.
-/
import IDeviceStack.Lib.Endian
import IDeviceStack.Usbmuxd.Connection
import Mathlib.Data.List.Forall2

namespace IDeviceStack.Usbmuxd

open Lib List

/-- `USB_MRU` of `usb.h`. -/
def usbMru : Nat := 16384

/-- `ntohl` of the four bytes at `off`. -/
def be32At (buf : List UInt8) (off : Nat) : Nat := beVal ((buf.drop off).take 4)

/-- `ntohs` of the two bytes at `off`. -/
def be16At (buf : List UInt8) (off : Nat) : Nat := beVal ((buf.drop off).take 2)

/-- `mhdr->protocol`, `mhdr->length` and `mhdr->rx_seq`. -/
def mhdrProtocol (buf : List UInt8) : Nat := be32At buf 0
def mhdrLength (buf : List UInt8) : Nat := be32At buf 4
def mhdrRxSeq (buf : List UInt8) : Nat := be16At buf 14

/-- The fields of `struct mux_device` that are of use here; `κ` is what `device_tcp_input` works
on. -/
structure UsbDevice (κ : Type) where
  usbdev : Nat
  dev : MuxDevice
  pktbuf : List UInt8
  pktlen : Nat
  connections : κ

/-- `device_tcp_input` with a header and a payload: the new `tx_seq` and the connections. -/
abbrev TcpInput (κ : Type) := MuxDevice → κ → List UInt8 → List UInt8 → U16 × κ

variable {κ : Type}

/-! ## The protocols -/

/-- `device_version_input`; `none` where the device is taken off the list and freed. -/
def deviceVersionInput (dev : MuxDevice) (major : Nat) : Option MuxDevice :=
  if dev.state ≠ .init then
    some dev
  else if major ≠ 2 ∧ major ≠ 1 then
    none
  else if 2 ≤ major then
    -- the SETUP packet starts the sequence numbers afresh
    let stamped := stampSeqs { dev with version := major } .setup
    some { stamped with txSeq := stamped.txSeq + 1, state := .active }
  else
    some { dev with version := major, state := .active }

/-- `device_data_input` from the `switch` on: what a whole packet does. -/
def dispatch (tcpInput : TcpInput κ) (d : UsbDevice κ) (buffer : List UInt8) (length : Nat) :
    Option (UsbDevice κ) :=
  let headerSize := muxHeaderSize d.dev
  let dev :=
    if 2 ≤ d.dev.version then { d.dev with rxSeq := BitVec.ofNat 16 (mhdrRxSeq buffer) } else d.dev
  match mhdrProtocol buffer with
  | 0 =>
    if length < headerSize + sizeofVersionHeader then
      some { d with dev := dev }
    else
      (deviceVersionInput dev (be32At buffer headerSize)).map fun dev' => { d with dev := dev' }
  | 6 =>
    if length < headerSize + sizeofTcphdr then
      some { d with dev := dev }
    else
      let r := tcpInput dev d.connections ((buffer.drop headerSize).take sizeofTcphdr)
        ((buffer.drop (headerSize + sizeofTcphdr)).take (length - sizeofTcphdr - headerSize))
      some { d with dev := { dev with txSeq := r.1 }, connections := r.2 }
  | _ => some { d with dev := dev }

/-! ## Putting a packet together -/

/-- The part of `device_data_input` that deals with transfers: the device, and the buffer and
length of a packet if there is a whole one. -/
def gather (d : UsbDevice κ) (buffer : List UInt8) (length : Nat) :
    UsbDevice κ × Option (List UInt8 × Nat) :=
  if length = 0 then
    (d, none)
  else if length > usbMru ∨ length > devMru then
    (d, none)
  else if d.pktlen ≠ 0 then
    if length + d.pktlen > devMru then
      ({ d with pktlen := 0 }, none)
    else
      let pktbuf := memcpy d.pktbuf d.pktlen (buffer.take length)
      if length < usbMru ∨ mhdrLength pktbuf = length + d.pktlen then
        ({ d with pktbuf := pktbuf, pktlen := 0 }, some (pktbuf, length + d.pktlen))
      else
        ({ d with pktbuf := pktbuf, pktlen := d.pktlen + length }, none)
  else if length = usbMru ∧ length < mhdrLength buffer then
    ({ d with pktbuf := memcpy d.pktbuf 0 (buffer.take length), pktlen := length }, none)
  else
    (d, some (buffer, length))

/-- `device_data_input` for the device that was found, and the packets that reached the
`switch`. -/
def deviceInput (tcpInput : TcpInput κ) (d : UsbDevice κ) (buffer : List UInt8) (length : Nat) :
    Option (UsbDevice κ) × List (List UInt8) :=
  match gather d buffer length with
  | (d', none) => (some d', [])
  | (d', some (buffer', length')) =>
    if mhdrLength buffer' ≠ length' then
      (some d', [])
    else
      (dispatch tcpInput d' buffer' length', [buffer'.take length'])

def deviceDataInput (tcpInput : TcpInput κ) (usbdev : Nat) (buffer : List UInt8) (length : Nat) :
    List (UsbDevice κ) → List (UsbDevice κ) × List (List UInt8)
  | [] => ([], [])
  | d :: ds =>
    if d.usbdev = usbdev then
      let r := deviceInput tcpInput d buffer length
      (r.1.toList ++ ds, r.2)
    else
      let r := deviceDataInput tcpInput usbdev buffer length ds
      (d :: r.1, r.2)

/-! ## Transfers -/

/-- A transfer in its buffer. -/
structure Transfer where
  buffer : List UInt8
  length : Nat
  inside : length ≤ buffer.length

def Transfer.bytes (t : Transfer) : List UInt8 := t.buffer.take t.length

/-- The transfers of one device, in order. -/
def feed (tcpInput : TcpInput κ) (usbdev : Nat) :
    List Transfer → List (UsbDevice κ) → List (UsbDevice κ) × List (List UInt8)
  | [], ds => (ds, [])
  | t :: ts, ds =>
    let r := deviceDataInput tcpInput usbdev t.buffer t.length ds
    let r' := feed tcpInput usbdev ts r.1
    (r'.1, r.2 ++ r'.2)

/-- A packet cut into transfers of `USB_MRU` bytes and a last one that is shorter or just
completes it. -/
inductive Cut : List UInt8 → List Transfer → Prop
  | last {t : Transfer} : 0 < t.length → t.length ≤ usbMru → Cut t.bytes [t]
  | more {t : Transfer} {rest : List UInt8} {ts : List Transfer} :
      t.length = usbMru → Cut rest ts → Cut (t.bytes ++ rest) (t :: ts)

/-- A mux packet: its header says how long it is, and it is no longer than `DEV_MRU`. -/
structure IsPacket (pkt : List UInt8) : Prop where
  length_eq : mhdrLength pkt = pkt.length
  min : 8 ≤ pkt.length
  max : pkt.length ≤ devMru

/-- A version packet that is long enough to be looked at. -/
def IsVersion (dev : MuxDevice) (pkt : List UInt8) : Prop :=
  mhdrProtocol pkt = 0 ∧ muxHeaderSize dev + sizeofVersionHeader ≤ pkt.length

instance (dev : MuxDevice) (pkt : List UInt8) : Decidable (IsVersion dev pkt) :=
  inferInstanceAs (Decidable (_ ∧ _))

/-- The packets that find their device on the list: all of them, or, if the first version packet
of a new device names an unknown version, those up to that one. -/
def whileRegistered (dev : MuxDevice) : List (List UInt8) → List (List UInt8)
  | [] => []
  | pkt :: pkts =>
    if dev.state = .init ∧ IsVersion dev pkt then
      if be32At pkt (muxHeaderSize dev) = 2 ∨ be32At pkt (muxHeaderSize dev) = 1 then
        pkt :: pkts
      else
        [pkt]
    else
      pkt :: whileRegistered dev pkts

/-! ## Reading behind a cut -/

theorem be32At_take {buf : List UInt8} {off n : Nat} (h : off + 4 ≤ n) :
    be32At (buf.take n) off = be32At buf off := by
  rw [be32At, be32At, drop_take, take_take, Nat.min_eq_left (by omega)]

variable {pkt : List UInt8}

theorem be32At_of_take {buf : List UInt8} {off n : Nat} (h : buf.take n = pkt.take n)
    (hoff : off + 4 ≤ n) : be32At buf off = be32At pkt off := by
  rw [← be32At_take hoff, h, be32At_take hoff]

theorem Transfer.length_bytes (t : Transfer) : t.bytes.length = t.length := by
  rw [Transfer.bytes, length_take, Nat.min_eq_left t.inside]

theorem Cut.pos {ts : List Transfer} (h : Cut pkt ts) : 0 < pkt.length := by
  cases h with
  | last hpos _ => rwa [Transfer.length_bytes]
  | more hlen _ =>
    rw [length_append, Transfer.length_bytes, hlen, usbMru]
    omega

/-! ## One packet -/

/-- The bytes `done` of a packet are in `pktbuf`. -/
structure Holds (d : UsbDevice κ) (done : List UInt8) : Prop where
  room : d.pktbuf.length = devMru
  len : d.pktlen = done.length
  bytes : d.pktbuf.take d.pktlen = done

/-- The device apart from its packet buffer. -/
structure SameDevice (d d' : UsbDevice κ) : Prop where
  usbdev : d'.usbdev = d.usbdev
  dev : d'.dev = d.dev
  connections : d'.connections = d.connections

theorem SameDevice.trans {a b c : UsbDevice κ} (h : SameDevice a b) (h' : SameDevice b c) :
    SameDevice a c :=
  ⟨h'.usbdev.trans h.usbdev, h'.dev.trans h.dev, h'.connections.trans h.connections⟩

variable {d : UsbDevice κ} {done : List UInt8}

theorem Holds.copied (h : Holds d done) (bytes : List UInt8)
    (hfit : done.length + bytes.length ≤ devMru) :
    (memcpy d.pktbuf d.pktlen bytes).length = devMru ∧
      (memcpy d.pktbuf d.pktlen bytes).take (done.length + bytes.length) = done ++ bytes := by
  have hroom : d.pktlen + bytes.length ≤ d.pktbuf.length := by
    rw [h.room, h.len]
    exact hfit
  refine ⟨by rw [length_memcpy hroom, h.room], ?_⟩
  rw [← h.len, take_memcpy hroom, h.bytes]

theorem gather_more {rest : List UInt8} {t : Transfer} (h : Holds d done)
    (hpkt : IsPacket (done ++ (t.bytes ++ rest))) (hlen : t.length = usbMru)
    (hrest : 0 < rest.length) :
    ∃ d', gather d t.buffer t.length = (d', none) ∧ SameDevice d d' ∧
      Holds d' (done ++ t.bytes) := by
  have hsize := hpkt.max
  have heq := hpkt.length_eq
  simp only [length_append, Transfer.length_bytes] at hsize heq
  have hsmall : ¬ (t.length > usbMru ∨ t.length > devMru) := by
    rw [hlen, usbMru, devMru]
    decide
  have hpos : t.length ≠ 0 := by
    rw [hlen]
    decide
  obtain ⟨hroom, hbytes⟩ := h.copied t.bytes (by rw [t.length_bytes]; omega)
  rw [t.length_bytes] at hbytes
  -- the header says that the packet is longer
  have hhdr (buf : List UInt8)
      (hbuf : buf.take (done.length + t.length) = done ++ t.bytes) :
      mhdrLength buf = done.length + (t.length + rest.length) := by
    rw [← heq, mhdrLength, mhdrLength]
    refine be32At_of_take (n := done.length + t.length) ?_ (by rw [hlen, usbMru]; omega)
    rw [hbuf, ← append_assoc, take_left' (by rw [length_append, t.length_bytes])]
  rw [gather, if_neg hpos, if_neg hsmall]
  by_cases hdone : d.pktlen = 0
  · have hnil : done = [] := length_eq_zero_iff.mp (h.len.symm.trans hdone)
    subst hnil
    have hmore := hhdr t.buffer (by
      rw [length_nil, Nat.zero_add]
      rfl)
    rw [length_nil, Nat.zero_add] at hmore
    rw [if_neg (not_not.mpr hdone), if_pos ⟨hlen, by rw [hmore]; omega⟩]
    rw [hdone] at hroom hbytes
    refine ⟨_, rfl, ⟨rfl, rfl, rfl⟩, hroom, by simp [t.length_bytes], ?_⟩
    rw [length_nil, Nat.zero_add] at hbytes
    exact hbytes
  · have hmore := hhdr _ hbytes
    rw [if_pos hdone, if_neg (by rw [h.len]; omega)]
    simp only []
    rw [if_neg]
    · refine ⟨_, rfl, ⟨rfl, rfl, rfl⟩, hroom, by simp [h.len, t.length_bytes], ?_⟩
      rw [h.len] at hbytes ⊢
      exact hbytes
    · rw [h.len] at hmore ⊢
      rintro (hlt | hend)
      · rw [hlen] at hlt
        exact absurd hlt (Nat.lt_irrefl _)
      · rw [Transfer.bytes] at hmore
        omega

theorem gather_last {t : Transfer} (h : Holds d done) (hpkt : IsPacket (done ++ t.bytes))
    (hpos : 0 < t.length) (hle : t.length ≤ usbMru) :
    ∃ d' buffer length, gather d t.buffer t.length = (d', some (buffer, length)) ∧
      SameDevice d d' ∧ d'.pktbuf.length = devMru ∧ d'.pktlen = 0 ∧
      length = (done ++ t.bytes).length ∧ buffer.take length = done ++ t.bytes := by
  have hsize := hpkt.max
  have heq := hpkt.length_eq
  have hmin := hpkt.min
  simp only [length_append, Transfer.length_bytes] at hsize heq hmin
  have hsmall : ¬ (t.length > usbMru ∨ t.length > devMru) := by
    rw [usbMru] at *
    rw [devMru]
    omega
  obtain ⟨hroom, hbytes⟩ := h.copied t.bytes (by rw [t.length_bytes]; omega)
  rw [t.length_bytes] at hbytes
  rw [gather, if_neg (by omega), if_neg hsmall, length_append, t.length_bytes]
  by_cases hdone : d.pktlen = 0
  · have hnil : done = [] := length_eq_zero_iff.mp (h.len.symm.trans hdone)
    subst hnil
    rw [length_nil, Nat.zero_add, nil_append] at *
    have hhdr : mhdrLength t.buffer = t.length := by
      rw [← heq, mhdrLength, mhdrLength, Transfer.bytes, be32At_take (by omega)]
    rw [if_neg (not_not.mpr hdone), if_neg (by rw [hhdr]; omega)]
    exact ⟨d, t.buffer, t.length, rfl, ⟨rfl, rfl, rfl⟩, h.room, hdone, rfl, rfl⟩
  · have hhdr : mhdrLength (memcpy d.pktbuf d.pktlen t.bytes) = done.length + t.length := by
      rw [← heq, mhdrLength, mhdrLength]
      refine be32At_of_take (n := done.length + t.length) ?_ (by omega)
      rw [hbytes, take_of_length_le (by rw [length_append, t.length_bytes])]
    rw [if_pos hdone, if_neg (by rw [h.len]; omega)]
    simp only []
    rw [if_pos (.inr (by rw [← Transfer.bytes, hhdr, h.len]; omega))]
    refine ⟨_, _, _, rfl, ⟨rfl, rfl, rfl⟩, hroom, rfl, by rw [h.len]; omega, ?_⟩
    rw [h.len, Nat.add_comm]
    rw [h.len] at hbytes
    exact hbytes

/-! ## The list of devices -/

theorem deviceDataInput_eq (tcpInput : TcpInput κ) {before after : List (UsbDevice κ)}
    (hfirst : ∀ e ∈ before, e.usbdev ≠ d.usbdev) (buffer : List UInt8) (length : Nat) :
    deviceDataInput tcpInput d.usbdev buffer length (before ++ d :: after) =
      (before ++ (deviceInput tcpInput d buffer length).1.toList ++ after,
        (deviceInput tcpInput d buffer length).2) := by
  induction before with
  | nil => simp [deviceDataInput]
  | cons e before ih =>
    rw [cons_append, deviceDataInput, if_neg (hfirst e mem_cons_self),
      ih fun x hx => hfirst x (mem_cons_of_mem e hx)]
    rfl

theorem deviceDataInput_absent (tcpInput : TcpInput κ) {ds : List (UsbDevice κ)} {usbdev : Nat}
    (habs : ∀ e ∈ ds, e.usbdev ≠ usbdev) (buffer : List UInt8) (length : Nat) :
    deviceDataInput tcpInput usbdev buffer length ds = (ds, []) := by
  induction ds with
  | nil => rfl
  | cons e ds ih =>
    rw [deviceDataInput, if_neg (habs e mem_cons_self),
      ih fun x hx => habs x (mem_cons_of_mem e hx)]

theorem feed_absent (tcpInput : TcpInput κ) {ds : List (UsbDevice κ)} {usbdev : Nat}
    (habs : ∀ e ∈ ds, e.usbdev ≠ usbdev) (ts : List Transfer) :
    feed tcpInput usbdev ts ds = (ds, []) := by
  induction ts with
  | nil => rfl
  | cons t ts ih => rw [feed, deviceDataInput_absent tcpInput habs, ih, nil_append]

theorem feed_append (tcpInput : TcpInput κ) (usbdev : Nat) (ts ts' : List Transfer)
    (ds : List (UsbDevice κ)) :
    feed tcpInput usbdev (ts ++ ts') ds =
      ((feed tcpInput usbdev ts' (feed tcpInput usbdev ts ds).1).1,
        (feed tcpInput usbdev ts ds).2 ++ (feed tcpInput usbdev ts' (feed tcpInput usbdev ts ds).1).2) := by
  induction ts generalizing ds with
  | nil => rfl
  | cons t ts ih => rw [cons_append, feed, ih, feed, append_assoc]

theorem feed_cut (tcpInput : TcpInput κ) {before : List (UsbDevice κ)} (after : List (UsbDevice κ))
    (hfirst : ∀ e ∈ before, e.usbdev ≠ d.usbdev) {rest : List UInt8} {ts : List Transfer}
    (hcut : Cut rest ts) (h : Holds d done) (hpkt : IsPacket (done ++ rest)) :
    ∃ d' buffer, SameDevice d d' ∧ d'.pktbuf.length = devMru ∧ d'.pktlen = 0 ∧
      buffer.take (done ++ rest).length = done ++ rest ∧
      feed tcpInput d.usbdev ts (before ++ d :: after) =
        (before ++ (dispatch tcpInput d' buffer (done ++ rest).length).toList ++ after,
          [done ++ rest]) := by
  induction hcut generalizing d done with
  | @last t hpos hle =>
    obtain ⟨d', buffer, length, hgather, hsame, hroom, hlen, rfl, hbytes⟩ :=
      gather_last h hpkt hpos hle
    have hhdr : mhdrLength buffer = (done ++ t.bytes).length := by
      have hmin := hpkt.min
      rw [← hpkt.length_eq, mhdrLength, mhdrLength, ← hbytes, be32At_take (by omega)]
    refine ⟨d', buffer, hsame, hroom, hlen, hbytes, ?_⟩
    rw [feed, deviceDataInput_eq tcpInput hfirst, deviceInput, hgather]
    simp only [hhdr, ne_eq, not_true, if_false, hbytes, feed, append_nil]
  | @more t rest ts hlen hcut ih =>
    obtain ⟨d', hgather, hsame, hholds⟩ := gather_more h hpkt hlen hcut.pos
    have hfirst' : ∀ e ∈ before, e.usbdev ≠ d'.usbdev := by
      rw [hsame.usbdev]
      exact hfirst
    obtain ⟨d'', buffer, hsame', hroom, hlen', hbytes, hfeed⟩ :=
      ih hfirst' hholds (by rw [append_assoc]; exact hpkt)
    rw [append_assoc] at hbytes hfeed
    refine ⟨d'', buffer, hsame.trans hsame', hroom, hlen', hbytes, ?_⟩
    rw [feed, deviceDataInput_eq tcpInput hfirst, deviceInput, hgather]
    rw [hsame.usbdev] at hfeed
    simp only [Option.toList_some, append_assoc, singleton_append, hfeed, nil_append]

/-! ## What a packet does to its device -/

/-- What a dispatch leaves alone. -/
structure SameStage (d d' : UsbDevice κ) : Prop where
  usbdev : d'.usbdev = d.usbdev
  room : d'.pktbuf.length = d.pktbuf.length
  len : d'.pktlen = d.pktlen

theorem dispatch_version (tcpInput : TcpInput κ) {buffer : List UInt8}
    (hbuf : buffer.take pkt.length = pkt) (hmin : 8 ≤ pkt.length) (hinit : d.dev.state = .init)
    (hver : IsVersion d.dev pkt) :
    if be32At pkt (muxHeaderSize d.dev) = 2 ∨ be32At pkt (muxHeaderSize d.dev) = 1 then
      ∃ d', dispatch tcpInput d buffer pkt.length = some d' ∧ SameStage d d' ∧ d'.dev.state ≠ .init
    else
      dispatch tcpInput d buffer pkt.length = none := by
  obtain ⟨hproto, hlong⟩ := hver
  have hread {off : Nat} (hoff : off + 4 ≤ pkt.length) : be32At buffer off = be32At pkt off := by
    refine be32At_of_take (n := pkt.length) ?_ hoff
    rw [hbuf, take_length]
  have hproto' : mhdrProtocol buffer = 0 := by
    rw [← hproto, mhdrProtocol, mhdrProtocol, hread (by omega)]
  have hmajor : be32At buffer (muxHeaderSize d.dev) = be32At pkt (muxHeaderSize d.dev) :=
    hread (by rw [sizeofVersionHeader] at hlong; omega)
  have hstate : (if 2 ≤ d.dev.version then
      { d.dev with rxSeq := BitVec.ofNat 16 (mhdrRxSeq buffer) } else d.dev).state = .init := by
    split <;> exact hinit
  simp only [dispatch, hproto', if_neg (Nat.not_lt.mpr hlong), hmajor]
  split
  · rename_i hknown
    have hnot : ¬ (be32At pkt (muxHeaderSize d.dev) ≠ 2 ∧
        be32At pkt (muxHeaderSize d.dev) ≠ 1) := by omega
    rw [deviceVersionInput, if_neg (not_not.mpr hstate), if_neg hnot]
    split
    · exact ⟨_, rfl, ⟨rfl, rfl, rfl⟩, by simp⟩
    · exact ⟨_, rfl, ⟨rfl, rfl, rfl⟩, by simp⟩
  · rename_i hunknown
    rw [deviceVersionInput, if_neg (not_not.mpr hstate), if_pos (by omega)]
    rfl

theorem dispatch_other (tcpInput : TcpInput κ) {buffer : List UInt8}
    (hbuf : buffer.take pkt.length = pkt) (hmin : 8 ≤ pkt.length)
    (hother : ¬ (d.dev.state = .init ∧ IsVersion d.dev pkt)) :
    ∃ d', dispatch tcpInput d buffer pkt.length = some d' ∧ SameStage d d' ∧
      d'.dev.state = d.dev.state ∧ d'.dev.version = d.dev.version := by
  have hproto : mhdrProtocol buffer = mhdrProtocol pkt := by
    refine be32At_of_take (n := pkt.length) ?_ (by omega)
    rw [hbuf, take_length]
  have hkeep : ∃ dev : MuxDevice, (if 2 ≤ d.dev.version then
      { d.dev with rxSeq := BitVec.ofNat 16 (mhdrRxSeq buffer) } else d.dev) = dev ∧
      dev.state = d.dev.state ∧ dev.version = d.dev.version := by
    refine ⟨_, rfl, ?_, ?_⟩ <;> split <;> rfl
  obtain ⟨dev, hdev, hstate, hversion⟩ := hkeep
  simp only [dispatch, hdev]
  split
  · rename_i hzero
    split
    · exact ⟨_, rfl, ⟨rfl, rfl, rfl⟩, hstate, hversion⟩
    · rename_i hlong
      have hold : dev.state ≠ .init := by
        rw [hstate]
        intro hinit
        exact hother ⟨hinit, by rw [← hproto, hzero], by omega⟩
      rw [deviceVersionInput, if_pos hold]
      exact ⟨_, rfl, ⟨rfl, rfl, rfl⟩, hstate, hversion⟩
  · split
    · exact ⟨_, rfl, ⟨rfl, rfl, rfl⟩, hstate, hversion⟩
    · exact ⟨_, rfl, ⟨rfl, rfl, rfl⟩, hstate, hversion⟩
  · exact ⟨_, rfl, ⟨rfl, rfl, rfl⟩, hstate, hversion⟩

/-! ## Sequences of packets -/

theorem whileRegistered_of_ne_init {dev : MuxDevice} (h : dev.state ≠ .init)
    (pkts : List (List UInt8)) : whileRegistered dev pkts = pkts := by
  induction pkts with
  | nil => rfl
  | cons pkt pkts ih => rw [whileRegistered, if_neg (fun hinit => h hinit.1), ih]

theorem whileRegistered_congr {dev dev' : MuxDevice} (hstate : dev'.state = dev.state)
    (hversion : dev'.version = dev.version) (pkts : List (List UInt8)) :
    whileRegistered dev' pkts = whileRegistered dev pkts := by
  induction pkts with
  | nil => rfl
  | cons pkt pkts ih =>
    have hsize : muxHeaderSize dev' = muxHeaderSize dev := by
      rw [muxHeaderSize, muxHeaderSize, hversion]
    have hver : IsVersion dev' pkt ↔ IsVersion dev pkt := by
      rw [IsVersion, IsVersion, hsize]
    simp only [whileRegistered, hstate, hver, hsize, ih]

/-- A device between two packets. -/
structure Between (d : UsbDevice κ) : Prop where
  room : d.pktbuf.length = devMru
  idle : d.pktlen = 0

theorem feed_cuts (tcpInput : TcpInput κ) {before after : List (UsbDevice κ)} {d : UsbDevice κ}
    (hfirst : ∀ e ∈ before, e.usbdev ≠ d.usbdev) (hafter : ∀ e ∈ after, e.usbdev ≠ d.usbdev)
    (hd : Between d) {pkts : List (List UInt8)} {cuts : List (List Transfer)}
    (hcuts : List.Forall₂ Cut pkts cuts) (hpkts : ∀ pkt ∈ pkts, IsPacket pkt) :
    ∃ d' : Option (UsbDevice κ), (∀ e ∈ d', e.usbdev = d.usbdev ∧ Between e) ∧
      feed tcpInput d.usbdev cuts.flatten (before ++ d :: after) =
        (before ++ d'.toList ++ after, whileRegistered d.dev pkts) := by
  induction hcuts generalizing d with
  | nil =>
    refine ⟨some d, ?_, by simp [feed, whileRegistered]⟩
    rintro e ⟨⟩
    exact ⟨rfl, hd⟩
  | @cons pkt ts pkts cuts hcut hcuts ih =>
    have hpkt := hpkts pkt mem_cons_self
    have hrest : ∀ p ∈ pkts, IsPacket p := fun p hp => hpkts p (mem_cons_of_mem pkt hp)
    have hholds : Holds d [] := ⟨hd.room, hd.idle, by rw [hd.idle, take_zero]⟩
    obtain ⟨d1, buffer, hsame, hroom, hidle, hbytes, hfeed⟩ :=
      feed_cut tcpInput after hfirst hcut hholds (by simpa using hpkt)
    rw [nil_append] at hbytes hfeed
    rw [flatten_cons, feed_append, hfeed, whileRegistered]
    -- the rest of the packets, from the device that is left
    have hgo (d2 : UsbDevice κ) (hstage : SameStage d1 d2) :
        ∃ d' : Option (UsbDevice κ), (∀ e ∈ d', e.usbdev = d.usbdev ∧ Between e) ∧
          feed tcpInput d.usbdev cuts.flatten (before ++ (some d2).toList ++ after) =
            (before ++ d'.toList ++ after, whileRegistered d2.dev pkts) := by
      have husb : d2.usbdev = d.usbdev := hstage.usbdev.trans hsame.usbdev
      have hgood : Between d2 := ⟨hstage.room.trans hroom, hstage.len.trans hidle⟩
      have hnext := ih (d := d2) (by rw [husb]; exact hfirst) (by rw [husb]; exact hafter)
        hgood hrest
      rw [husb] at hnext
      simpa using hnext
    by_cases hver : d.dev.state = .init ∧ IsVersion d.dev pkt
    · have hver' := hver
      rw [← hsame.dev] at hver'
      have hdisp := dispatch_version tcpInput hbytes hpkt.min hver'.1 hver'.2
      rw [if_pos hver]
      rw [hsame.dev] at hdisp
      by_cases hknown : be32At pkt (muxHeaderSize d.dev) = 2 ∨
          be32At pkt (muxHeaderSize d.dev) = 1
      · rw [if_pos hknown] at hdisp ⊢
        obtain ⟨d2, hd2, hstage, hactive⟩ := hdisp
        obtain ⟨d', hd', hlog⟩ := hgo d2 hstage
        refine ⟨d', hd', ?_⟩
        rw [hd2, hlog, whileRegistered_of_ne_init hactive, singleton_append]
      · rw [if_neg hknown] at hdisp ⊢
        refine ⟨none, (by simp), ?_⟩
        have habs : ∀ e ∈ before ++ after, e.usbdev ≠ d.usbdev := by
          intro e he
          rcases mem_append.mp he with he | he
          · exact hfirst e he
          · exact hafter e he
        rw [hdisp]
        simp only [Option.toList_none, append_nil, feed_absent tcpInput habs]
    · have hver' := hver
      rw [← hsame.dev] at hver'
      obtain ⟨d2, hd2, hstage, hstate, hversion⟩ := dispatch_other tcpInput hbytes hpkt.min hver'
      obtain ⟨d', hd', hlog⟩ := hgo d2 hstage
      refine ⟨d', hd', ?_⟩
      rw [hsame.dev] at hstate hversion
      rw [if_neg hver, hd2, hlog, whileRegistered_congr hstate hversion, singleton_append]

/-- **The packets come out again.**  However long they are, and wherever that puts the ends of the
transfers: each packet reaches its protocol once, in order and with its own bytes, while the device
is on the list, and after each of them `pktlen` is 0. -/
theorem deviceDataInput_reassembles (tcpInput : TcpInput κ) (ds : List (UsbDevice κ))
    (hdistinct : (ds.map UsbDevice.usbdev).Nodup) (d : UsbDevice κ) (hmem : d ∈ ds)
    (hd : Between d) (pkts : List (List UInt8)) (cuts : List (List Transfer))
    (hcuts : List.Forall₂ Cut pkts cuts) (hpkts : ∀ pkt ∈ pkts, IsPacket pkt) :
    (feed tcpInput d.usbdev cuts.flatten ds).2 = whileRegistered d.dev pkts ∧
      ∀ k, ∀ e ∈ (feed tcpInput d.usbdev (cuts.take k).flatten ds).1,
        e.usbdev = d.usbdev → e.pktlen = 0 := by
  obtain ⟨before, after, rfl⟩ := append_of_mem hmem
  rw [map_append, map_cons, nodup_append] at hdistinct
  obtain ⟨-, hnodup, hdis⟩ := hdistinct
  have hfirst : ∀ e ∈ before, e.usbdev ≠ d.usbdev := by
    intro e he
    exact hdis _ (mem_map_of_mem he) _ mem_cons_self
  have hafter : ∀ e ∈ after, e.usbdev ≠ d.usbdev := by
    intro e he heq
    exact (nodup_cons.mp hnodup).1 (heq ▸ mem_map_of_mem he)
  constructor
  · obtain ⟨d', -, hfeed⟩ := feed_cuts tcpInput hfirst hafter hd hcuts hpkts
    rw [hfeed]
  · intro k e he husb
    obtain ⟨d', hd', hfeed⟩ := feed_cuts tcpInput hfirst hafter hd (List.forall₂_take k hcuts)
      fun pkt hpkt => hpkts pkt (mem_of_mem_take hpkt)
    rw [hfeed, mem_append, mem_append, Option.mem_toList] at he
    rcases he with (he | he) | he
    · exact absurd husb (hfirst e he)
    · exact (hd' e he).2.idle
    · exact absurd husb (hafter e he)

/-- A new device, as `device_add` makes it. -/
def newDevice : UsbDevice Unit :=
  ⟨1, ⟨.init, 0, 0, 0⟩, List.replicate devMru 0, 0, ()⟩

theorem newDevice_between : Between newDevice := ⟨length_replicate, rfl⟩

/-- A control packet of 20000 bytes. -/
def longPacket : List UInt8 := [0, 0, 0, 1, 0, 0, 0x4e, 0x20] ++ List.replicate 19992 0

theorem length_longPacket : longPacket.length = 20000 := by
  rw [longPacket, length_append, length_replicate]
  rfl

theorem longPacket_isPacket : IsPacket longPacket := by
  refine ⟨?_, ?_, ?_⟩
  · rw [length_longPacket]
    rfl
  · rw [length_longPacket]
    decide
  · rw [length_longPacket]
    decide

/-- Its two transfers. -/
def longFirst : Transfer :=
  ⟨longPacket.take usbMru, usbMru, by rw [length_take, length_longPacket]; decide⟩

def longSecond : Transfer :=
  ⟨longPacket.drop usbMru, 3616, by rw [length_drop, length_longPacket]; decide⟩

theorem longPacket_cut : Cut longPacket [longFirst, longSecond] := by
  have hfirst : longFirst.bytes = longPacket.take usbMru := by
    rw [Transfer.bytes, longFirst, take_take, Nat.min_self]
  have hsecond : longSecond.bytes = longPacket.drop usbMru := by
    have hlen : (longPacket.drop usbMru).length ≤ 3616 := by
      rw [length_drop, length_longPacket]
      decide
    rw [Transfer.bytes, longSecond, take_of_length_le hlen]
  have hcut : Cut (longFirst.bytes ++ longSecond.bytes) [longFirst, longSecond] :=
    .more rfl (.last (show 0 < 3616 by decide) (show 3616 ≤ usbMru by decide))
  rwa [hfirst, hsecond, take_append_drop] at hcut

theorem deviceDataInput_reassembles_long :
    (feed (fun _ _ _ _ => (0, ())) 1 [longFirst, longSecond, longFirst, longSecond] [newDevice]).2 =
      whileRegistered newDevice.dev [longPacket, longPacket] := by
  have hcuts : List.Forall₂ Cut [longPacket, longPacket] [[longFirst, longSecond], [longFirst, longSecond]] :=
    .cons longPacket_cut (.cons longPacket_cut .nil)
  have hpkts : ∀ pkt ∈ [longPacket, longPacket], IsPacket pkt := by
    intro pkt hpkt
    have heq : pkt = longPacket := by simpa using hpkt
    rw [heq]
    exact longPacket_isPacket
  exact (deviceDataInput_reassembles (fun _ _ _ _ => (0, ())) [newDevice] (by simp)
    newDevice mem_cons_self newDevice_between _ _ hcuts hpkts).1

/-- A version packet of version 3, and a control packet of nine bytes. -/
def versionThree : List UInt8 := [0, 0, 0, 0, 0, 0, 0, 20, 0, 0, 0, 3, 0, 0, 0, 0, 0, 0, 0, 0]
def controlSeven : List UInt8 := [0, 0, 0, 1, 0, 0, 0, 9, 7]

/-- A new device that turns out to have an unknown version is taken off the list, and the next
packet is not dispatched. -/
theorem unknown_version_unregisters :
    IsPacket versionThree ∧ IsPacket controlSeven ∧
      Cut versionThree [⟨versionThree, 20, by decide⟩] ∧
      Cut controlSeven [⟨controlSeven, 9, by decide⟩] ∧
      (feed (fun _ _ _ _ => (0, ())) 1 ([[⟨versionThree, 20, by decide⟩],
        [⟨controlSeven, 9, by decide⟩]] : List (List Transfer)).flatten [newDevice]).2 =
        [versionThree] ∧
      [versionThree] ≠ [versionThree, controlSeven] := by
  refine ⟨⟨by rfl, by decide, by decide⟩, ⟨by rfl, by decide, by decide⟩, ?_, ?_, by rfl, by decide⟩
  · exact Cut.last (t := ⟨versionThree, 20, by decide⟩) (by decide) (by decide)
  · exact Cut.last (t := ⟨controlSeven, 9, by decide⟩) (by decide) (by decide)

end IDeviceStack.Usbmuxd
