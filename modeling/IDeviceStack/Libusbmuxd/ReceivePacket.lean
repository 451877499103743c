/-
# `Libusbmuxd.ReceivePacket` — packets from the daemon

`receive_packet` of `libusbmuxd.c` reads a header with one call and a payload with a loop, and
turns plist messages into the binary records of the old protocol.

* What `select` and `recv` bring is a list of arrivals: bytes, a timeout, or an error.  Behind them
  the connection is closed, or nothing comes any more.
* `header` and `*payload` are results; `*payload` may be left as it is.
* The accessors of libplist abort where an assertion of theirs fails.

**Proved here.**  `packetRight_iff`.
-/
import IDeviceStack.Libusbmuxd.Monitor
import IDeviceStack.Usbmuxd.Commands

namespace IDeviceStack.Libusbmuxd

open Lib
open Libplist hiding plistDictGetItem
open Libplist.Values Libplist.Xplist
open Usbmuxd.Daemon (CommandStop Says readPayload item plistDictGetItem_read
  plistGetStringVal_read plistGetUintVal_ok plistGetUintVal_other nodeType_string)

/-! ## The socket -/

def eagain : Int := 11
def ebadmsg : Int := 104

/-- What one call of `select` and `recv` finds. -/
inductive Arrival where
  | segment (b : UInt8) (more : List UInt8)
  | timeout
  /-- `-1` of `select`, or `-errno`. -/
  | failed (errno : Nat)
  deriving DecidableEq, Repr

structure Socket where
  arrivals : List Arrival
  /-- Behind them the connection is closed. -/
  closed : Bool
  deriving DecidableEq, Repr

/-- What was not read of a segment. -/
def putBack : List UInt8 → List Arrival → List Arrival
  | [], arrivals => arrivals
  | b :: more, arrivals => .segment b more :: arrivals

/-- `socket_receive_timeout`: a negative result, or the bytes; none after a timeout. -/
def socketReceive (s : Socket) (length : Nat) : Except Int (List UInt8) × Socket :=
  match s.arrivals with
  | [] => if s.closed then (.error (-eagain), s) else (.ok [], s)
  | .timeout :: arrivals => (.ok [], { s with arrivals := arrivals })
  | .failed errno :: arrivals => (.error (-(errno + 1)), { s with arrivals := arrivals })
  | .segment b more :: arrivals =>
    (.ok ((b :: more).take length),
      { s with arrivals := putBack ((b :: more).drop length) arrivals })

/-! ## Packets -/

/-- `struct usbmuxd_header`. -/
structure UsbmuxdHeader where
  length : UInt32
  version : UInt32
  message : UInt32
  tag : UInt32
  deriving DecidableEq, Repr

def sizeofHeader : Nat := 16
/-- `sizeof(struct usbmuxd_device_record)`. -/
def sizeofDeviceRecord : Nat := 268

def messageResult : UInt32 := 1
def messageDeviceAdd : UInt32 := 4
def messageDeviceRemove : UInt32 := 5
def messageDevicePaired : UInt32 := 6
def messagePlist : UInt32 := 8

def UsbmuxdHeader.zero : UsbmuxdHeader := ⟨0, 0, 0, 0⟩

/-- A little-endian word. -/
def wordAt (bytes : List UInt8) (offset : Nat) : UInt32 :=
  UInt32.ofNat (leVal ((bytes.drop offset).take 4))

def UsbmuxdHeader.ofBytes (bytes : List UInt8) : UsbmuxdHeader :=
  ⟨wordAt bytes 0, wordAt bytes 4, wordAt bytes 8, wordAt bytes 12⟩

/-- What `*payload` is set to. -/
inductive Payload where
  /-- It is not. -/
  | kept
  | null
  | bytes (payload : List UInt8)
  | plist (plist : Plist)
  | dwval (val : UInt32)
  | record (dev : DeviceRecord)

/-- What `receive_packet` does. -/
inductive Received where
  | returned (ret : Int) (header : UsbmuxdHeader) (payload : Payload)
  /-- The loop of the payload goes on without end. -/
  | spins
  /-- The reader of plists, or an assertion. -/
  | stopped (stop : CommandStop)

/-- `return -EBADMSG;`, with the header that is zero. -/
def badMessage : Received := .returned (-ebadmsg) .zero .kept

/-- `return hdr.length;`, as an `int`. -/
def returnHeader (hdr : UsbmuxdHeader) (payload : Payload) : Received :=
  .returned hdr.length.toBitVec.toInt hdr payload

inductive PayloadRead where
  | complete (payload : List UInt8)
  | short
  | spins
  deriving DecidableEq, Repr

/-- The loop of the payload, with what is missing of it; there are no more turns than arrivals
before it is at its end, or never is. -/
def receivePayload : Nat → Socket → Nat → List UInt8 → PayloadRead × Socket
  | 0, s, _, _ => (.spins, s)
  | fuel + 1, s, missing, payload =>
    match socketReceive s missing with
    | (.error _, s) => (.short, s)
    | (.ok got, s) =>
      if got.length < missing then
        receivePayload fuel s (missing - got.length) (payload ++ got)
      else (.complete (payload ++ got), s)

/-! ## Plist messages -/

/-- `plist_get_uint_val`, of a node that may be `NULL`. -/
def nodeUintVal : Option Plist → Except Abort UInt64
  | some node => plistGetUintVal node 0
  | none => .error .assertion

/-- A member of `device_record_from_plist`; what is no integer leaves it 0. -/
def recordUint (props : Plist) (key : List UInt8) : Except Abort UInt64 := do
  match ← plistDictGetItem props key with
  | some n => if n.nodeType = .uint then plistGetUintVal n 0 else .ok 0
  | none => .ok 0

/-- `strncpy(dev->serial_number, strval, 255)`, behind the `memset`. -/
def serialNumber (strval : List UInt8) : {s : List UInt8 // s.length = 256} :=
  ⟨strval.take 255 ++ List.replicate (256 - (strval.take 255).length) 0, by
    rw [List.length_append, List.length_replicate, List.length_take]
    omega⟩

/-- The `SerialNumber`. -/
def recordSerial (props : Plist) : Except Abort (List UInt8) := do
  match ← plistDictGetItem props (lit "SerialNumber") with
  | some n => if n.nodeType = .string then plistGetStringVal n none else .ok []
  | none => .ok []

def deviceRecordFromPlist (props : Plist) : Except Abort DeviceRecord := do
  let deviceId ← recordUint props (lit "DeviceID")
  let productId ← recordUint props (lit "ProductID")
  let strval ← recordSerial props
  let _location ← recordUint props (lit "LocationID")
  .ok ⟨deviceId.toUInt32, productId.toUInt16, serialNumber strval⟩

/-- A message that names a device, turned into one of type `message`. -/
def handleMessage (hdr : UsbmuxdHeader) (dict : Plist) (message : UInt32) :
    Except Abort Received := do
  match ← plistDictGetItem dict (lit "DeviceID") with
  | some n =>
    let val ← plistGetUintVal n 0
    .ok (returnHeader { hdr with length := 20, message := message } (.dwval val.toUInt32))
  | none => .ok (returnHeader hdr .kept)

/-- `MessageType` is `Result`. -/
def resultMessage (hdr : UsbmuxdHeader) (dict : Plist) : Except Abort Received := do
  let val ← nodeUintVal (← plistDictGetItem dict (lit "Number"))
  .ok (returnHeader { hdr with length := 20, message := messageResult } (.dwval val.toUInt32))

/-- `MessageType` is `Attached`. -/
def attachedMessage (hdr : UsbmuxdHeader) (dict : Plist) : Except Abort Received := do
  match ← plistDictGetItem dict (lit "Properties") with
  | some props =>
    let dev ← deviceRecordFromPlist props
    .ok (returnHeader
      { hdr with
        length := UInt32.ofNat (sizeofHeader + sizeofDeviceRecord)
        message := messageDeviceAdd } (.record dev))
  | none => .ok badMessage

/-- What a `MessageType` is turned into. -/
def messageOf (hdr : UsbmuxdHeader) (dict : Plist) (message : List UInt8) :
    Except Abort Received :=
  if message = lit "Result" then resultMessage hdr dict
  else if message = lit "Attached" then attachedMessage hdr dict
  else if message = lit "Detached" then handleMessage hdr dict messageDeviceRemove
  else if message = lit "Paired" then handleMessage hdr dict messageDevicePaired
  else .ok badMessage

/-- The branch of `MESSAGE_PLIST`, with the plist. -/
def plistPacket (hdr : UsbmuxdHeader) (dict : Plist) : Except Abort Received := do
  match ← plistDictGetItem dict (lit "MessageType") with
  | none => .ok (returnHeader { hdr with length := 16 } (.plist dict))
  | some node =>
    if node.nodeType ≠ .string then .ok (returnHeader { hdr with length := 16 } (.plist dict))
    else do
      let message ← plistGetStringVal node none
      messageOf hdr dict message

/-- What is made of a header and a payload. -/
def packetOf (conv : Conv) (hdr : UsbmuxdHeader) (payload : List UInt8) : Received :=
  if hdr.message = messagePlist then
    match readPayload conv payload with
    | .error stop => .stopped stop
    | .ok none => badMessage
    | .ok (some dict) =>
      match plistPacket hdr dict with
      | .error a => .stopped (.abort a)
      | .ok received => received
  else returnHeader hdr (if payload = [] then .null else .bytes payload)

/-- `receive_packet`, behind the header. -/
def receiveBody (conv : Conv) (s : Socket) (hdr : UsbmuxdHeader) : Received × Socket :=
  let payloadSize := (hdr.length - UInt32.ofNat sizeofHeader).toNat
  if payloadSize > 0 then
    match receivePayload (s.arrivals.length + 1) s payloadSize [] with
    | (.complete payload, s) => (packetOf conv hdr payload, s)
    | (.short, s) => (badMessage, s)
    | (.spins, s) => (.spins, s)
  else (packetOf conv hdr [], s)

def receivePacket (conv : Conv) (s : Socket) : Received × Socket :=
  match socketReceive s sizeofHeader with
  | (.error code, s) => (.returned code .zero .kept, s)
  | (.ok got, s) =>
    if got.length < sizeofHeader then (.returned got.length .zero .kept, s)
    else receiveBody conv s (.ofBytes got)

/-! ## What a packet should be -/

/-- The bytes that come, up to an error. -/
def delivered : List Arrival → List UInt8
  | [] => []
  | .segment b more :: arrivals => b :: more ++ delivered arrivals
  | .timeout :: arrivals => delivered arrivals
  | .failed _ :: _ => []

/-- One of the calls finds an error. -/
def breaks : List Arrival → Bool
  | [] => false
  | .failed _ :: _ => true
  | _ :: arrivals => breaks arrivals

def Socket.stream (s : Socket) : List UInt8 := delivered s.arrivals

/-- The connection ends behind the bytes. -/
def Socket.Ends (s : Socket) : Prop := s.closed = true ∨ breaks s.arrivals = true

/-- The header at the front of the bytes. -/
def Socket.header (s : Socket) : Option UsbmuxdHeader :=
  if sizeofHeader ≤ s.stream.length then some (.ofBytes (s.stream.take sizeofHeader)) else none

/-- The bytes behind the header that are the payload. -/
def Socket.payload (s : Socket) (hdr : UsbmuxdHeader) : List UInt8 :=
  (s.stream.drop sizeofHeader).take (hdr.length.toNat - sizeofHeader)

/-- What is returned is the packet at the front of the bytes. -/
structure IsPacket (s : Socket) (hdr : UsbmuxdHeader) (ret : Int) (header : UsbmuxdHeader)
    (payload : Payload) : Prop where
  found : s.header = some hdr
  length : ret = header.length.toNat
  whole : sizeofHeader ≤ header.length.toNat
  set : payload ≠ .kept
  exact : hdr.message ≠ messagePlist → header = hdr ∧ hdr.length.toNat ≤ s.stream.length ∧
    payload = if s.payload hdr = [] then .null else .bytes (s.payload hdr)

/-- An error, or the packet. -/
def Answers (s : Socket) : Received → Prop
  | .returned ret header payload => ret < 0 ∨ ∃ hdr, IsPacket s hdr ret header payload
  | .spins | .stopped _ => False

/-- The call brings an error or a packet, and the size of the payload does not wrap. -/
def PacketRight (conv : Conv) (s : Socket) : Prop :=
  (∀ hdr, s.header = some hdr → sizeofHeader ≤ hdr.length.toNat) ∧
    Answers s (receivePacket conv s).1

/-- The `SerialNumber`, if it is a string, has no `NUL`. -/
def SerialOk (props : Plist) : Prop :=
  ∀ s length, item props (lit "SerialNumber") = some (.scalar (.string s) length) → NulFree s

/-- The members that a message needs have the types that they should have.  A `Detached` or
`Paired` without a `DeviceID` is passed on with its length, and nothing for the payload. -/
def TameMessage (hdr : UsbmuxdHeader) (dict : Plist) (message : List UInt8) : Prop :=
  if message = lit "Result" then
    ∃ node, item dict (lit "Number") = some node ∧ node.nodeType = .uint
  else if message = lit "Attached" then
    ∀ props, item dict (lit "Properties") = some props → SerialOk props
  else if message = lit "Detached" ∨ message = lit "Paired" then
    (∀ node, item dict (lit "DeviceID") = some node → node.nodeType = .uint) ∧
      ((item dict (lit "DeviceID")).isSome ∨ 2 ^ 31 ≤ hdr.length.toNat)
  else True

/-- No member makes an accessor fail. -/
def Tame (hdr : UsbmuxdHeader) (dict : Plist) : Prop :=
  ∀ message, Says dict message → NulFree message ∧ TameMessage hdr dict message

/-- The payload is read, and what is read is tame. -/
def Readable (conv : Conv) (hdr : UsbmuxdHeader) (payload : List UInt8) : Prop :=
  ∃ r, readPayload conv payload = .ok r ∧ ∀ dict, r = some dict → Tame hdr dict

/-- The length is that of a packet, and the payload comes or the connection ends. -/
structure BodyOrderly (conv : Conv) (s : Socket) (hdr : UsbmuxdHeader) : Prop where
  length : sizeofHeader ≤ hdr.length.toNat
  comes : hdr.length.toNat ≤ s.stream.length ∨ s.Ends
  tame : hdr.length.toNat ≤ s.stream.length → hdr.message = messagePlist →
    Readable conv hdr (s.payload hdr)

/-- The first call brings an error or a whole header. -/
def Orderly (conv : Conv) (s : Socket) : Prop :=
  match s.arrivals with
  | [] => s.closed = true
  | .failed _ :: _ => True
  | .timeout :: _ => False
  | .segment b more :: _ => sizeofHeader ≤ (b :: more).length ∧
      BodyOrderly conv s (.ofBytes (s.stream.take sizeofHeader))

/-! ## The loop of the payload -/

section Loop

variable {s : Socket} {arrivals : List Arrival}

theorem delivered_putBack (more : List UInt8) (arrivals : List Arrival) :
    delivered (putBack more arrivals) = more ++ delivered arrivals := by
  cases more with
  | nil => rfl
  | cons b more => rfl

theorem breaks_putBack (more : List UInt8) (arrivals : List Arrival) :
    breaks (putBack more arrivals) = breaks arrivals := by
  cases more with
  | nil => rfl
  | cons b more => rfl

theorem socketReceive_segment (b : UInt8) (more : List UInt8) (closed : Bool) (length : Nat) :
    socketReceive ⟨.segment b more :: arrivals, closed⟩ length =
      (.ok ((b :: more).take length),
        ⟨putBack ((b :: more).drop length) arrivals, closed⟩) := rfl

theorem receivePayload_more {fuel missing : Nat} {s' : Socket} {bytes : List UInt8}
    (h : socketReceive s missing = (.ok bytes, s')) (hlt : bytes.length < missing)
    (got : List UInt8) : receivePayload (fuel + 1) s missing got =
      receivePayload fuel s' (missing - bytes.length) (got ++ bytes) := by
  rw [receivePayload, h]
  exact if_pos hlt

theorem receivePayload_silent {missing : Nat} (hmissing : 0 < missing) (fuel : Nat)
    (got : List UInt8) : (receivePayload fuel ⟨[], false⟩ missing got).1 = .spins := by
  induction fuel generalizing got with
  | zero => rfl
  | succ fuel ih =>
    have hstep : socketReceive ⟨[], false⟩ missing = (.ok [], ⟨[], false⟩) := rfl
    rw [receivePayload_more hstep hmissing]
    exact ih _

/-- What the loop brings, and what it leaves. -/
structure LoopResult (s : Socket) (missing : Nat) (got : List UInt8) (r : PayloadRead × Socket) :
    Prop where
  complete : missing ≤ s.stream.length → r.1 = .complete (got ++ s.stream.take missing) ∧
    r.2.stream = s.stream.drop missing ∧ (r.2.Ends ↔ s.Ends)
  short : s.stream.length < missing → s.Ends → r.1 = .short
  spins : s.stream.length < missing → ¬ s.Ends → r.1 = .spins

theorem receivePayload_result {fuel missing : Nat} (hfuel : arrivals.length < fuel)
    (hmissing : 0 < missing) (closed : Bool) (got : List UInt8) :
    LoopResult ⟨arrivals, closed⟩ missing got
      (receivePayload fuel ⟨arrivals, closed⟩ missing got) := by
  induction arrivals generalizing fuel missing got with
  | nil =>
    have hlt : (Socket.stream ⟨[], closed⟩).length < missing := hmissing
    refine ⟨fun h => absurd h (Nat.not_le.2 hlt), fun _ hends => ?_, fun _ hends => ?_⟩
    · obtain ⟨fuel, rfl⟩ := Nat.exists_eq_succ_of_ne_zero (Nat.ne_of_gt hfuel)
      have hclosed : closed = true := hends.elim id fun h => nomatch h
      rw [hclosed]
      rfl
    · have hopen : closed = false := Bool.eq_false_iff.2 fun h => hends (.inl h)
      rw [hopen]
      exact receivePayload_silent hmissing fuel got
  | cons a arrivals ih =>
    obtain ⟨fuel, rfl⟩ := Nat.exists_eq_succ_of_ne_zero (Nat.ne_of_gt (Nat.zero_lt_of_lt hfuel))
    have hrest : arrivals.length < fuel := Nat.lt_of_succ_lt_succ hfuel
    cases a with
    | timeout =>
      have hmore : receivePayload (fuel + 1) ⟨.timeout :: arrivals, closed⟩ missing got =
          receivePayload fuel ⟨arrivals, closed⟩ missing got := by
        have hstep : socketReceive ⟨.timeout :: arrivals, closed⟩ missing =
            (.ok [], ⟨arrivals, closed⟩) := rfl
        rw [receivePayload_more hstep hmissing, List.append_nil, List.length_nil, Nat.sub_zero]
      rw [hmore]
      have ih := ih hrest hmissing got
      exact ⟨ih.complete, ih.short, ih.spins⟩
    | failed errno =>
      refine ⟨fun h => absurd h (Nat.not_le.2 hmissing), fun _ _ => rfl, fun _ hends => ?_⟩
      exact absurd (.inr rfl) hends
    | segment b more =>
      have hstream : Socket.stream ⟨.segment b more :: arrivals, closed⟩ =
          b :: more ++ Socket.stream ⟨arrivals, closed⟩ := rfl
      by_cases hlt : (b :: more).length < missing
      · have hread : socketReceive ⟨.segment b more :: arrivals, closed⟩ missing =
            (.ok (b :: more), ⟨arrivals, closed⟩) := by
          rw [socketReceive_segment, List.take_of_length_le (Nat.le_of_lt hlt),
            List.drop_of_length_le (Nat.le_of_lt hlt)]
          rfl
        rw [receivePayload_more hread hlt]
        have ih := ih hrest (Nat.sub_pos_of_lt hlt) (got ++ b :: more)
        refine ⟨fun h => ?_, fun h hends => ?_, fun h hends => ?_⟩
        · rw [hstream, List.length_append] at h
          obtain ⟨hpayload, hleft, hends⟩ := ih.complete (by omega)
          rw [hstream, List.take_append, List.drop_append,
            List.take_of_length_le (Nat.le_of_lt hlt), List.drop_of_length_le (Nat.le_of_lt hlt),
            ← List.append_assoc]
          exact ⟨hpayload, hleft, hends⟩
        · rw [hstream, List.length_append] at h
          exact ih.short (by omega) hends
        · rw [hstream, List.length_append] at h
          exact ih.spins (by omega) hends
      · have hle : missing ≤ (b :: more).length := Nat.le_of_not_lt hlt
        have hread : receivePayload (fuel + 1) ⟨.segment b more :: arrivals, closed⟩ missing got =
            (.complete (got ++ (b :: more).take missing),
              ⟨putBack ((b :: more).drop missing) arrivals, closed⟩) := by
          rw [receivePayload, socketReceive_segment]
          dsimp only
          rw [List.length_take, Nat.min_eq_left hle, if_neg (Nat.lt_irrefl _)]
        rw [hread]
        refine ⟨fun _ => ?_, fun h _ => ?_, fun h _ => ?_⟩
        · rw [hstream, List.take_append_of_le_length hle, List.drop_append_of_le_length hle]
          refine ⟨rfl, delivered_putBack _ _, ?_⟩
          rw [Socket.Ends, Socket.Ends, breaks_putBack]
          rfl
        · rw [hstream, List.length_append] at h
          omega
        · rw [hstream, List.length_append] at h
          omega

end Loop

/-! ## Plist messages -/

/-- The function returns, and with what is asked for. -/
def Yields {ε α : Type} (x : Except ε α) (P : α → Prop) : Prop := ∃ a, x = .ok a ∧ P a

section Yields

variable {ε α β : Type} {P : β → Prop}

theorem yields_bind {x : Except ε α} {f : α → Except ε β} :
    Yields (x >>= f) P ↔ Yields x fun a => Yields (f a) P := by
  cases x with
  | error e => exact ⟨fun ⟨_, h, _⟩ => (nomatch h), fun ⟨_, h, _⟩ => (nomatch h)⟩
  | ok a =>
    constructor
    · rintro ⟨b, h, hb⟩
      exact ⟨a, rfl, b, h, hb⟩
    · rintro ⟨a', ⟨⟩, b, h, hb⟩
      exact ⟨b, h, hb⟩

theorem yields_ok {b : β} : Yields (.ok b : Except ε β) P ↔ P b :=
  ⟨fun ⟨_, h, hb⟩ => Except.ok.inj h ▸ hb, fun hb => ⟨b, rfl, hb⟩⟩

end Yields

section Messages

variable {dict node : Plist} {key : List UInt8} {hdr : UsbmuxdHeader}

theorem yields_item (h : FromXml dict) (key : List UInt8) {P : Option Plist → Prop} :
    Yields (plistDictGetItem dict key) P ↔ P (item dict key) := by
  rw [(plistDictGetItem_read h key).1]
  exact yields_ok

theorem yields_uintVal (h : FromXml node) {P : UInt64 → Prop} {Q : Prop} (hP : ∀ val, P val ↔ Q) :
    Yields (plistGetUintVal node 0) P ↔ node.nodeType = .uint ∧ Q := by
  rw [← plistGetUintVal_ok h 0]
  constructor
  · rintro ⟨val, hval, hp⟩
    exact ⟨⟨val, hval⟩, (hP val).1 hp⟩
  · rintro ⟨⟨val, hval⟩, hq⟩
    exact ⟨val, hval, (hP val).2 hq⟩

theorem yields_stringVal {s : List UInt8} {length : Nat} (h : FromXml (.scalar (.string s) length))
    {P : List UInt8 → Prop} :
    Yields (plistGetStringVal (.scalar (.string s) length) none) P ↔ NulFree s ∧ P s := by
  rw [plistGetStringVal_read h]
  by_cases hs : NulFree s
  · rw [if_pos hs, yields_ok]
    exact ⟨fun hp => ⟨hs, hp⟩, fun hp => hp.2⟩
  · rw [if_neg hs]
    exact ⟨fun ⟨_, h, _⟩ => (nomatch h), fun hp => absurd hp.1 hs⟩

/-- An error, or a packet with a payload. -/
def Fine : Received → Prop
  | .returned ret header payload => ret < 0 ∨
      ret = header.length.toNat ∧ sizeofHeader ≤ header.length.toNat ∧ payload ≠ .kept
  | .spins | .stopped _ => False

theorem fine_badMessage : Fine badMessage := .inl (by decide)

theorem toInt_length (hdr : UsbmuxdHeader) :
    hdr.length.toBitVec.toInt = if hdr.length.toNat < 2 ^ 31 then (hdr.length.toNat : Int)
      else hdr.length.toNat - 2 ^ 32 := by
  have htoNat : hdr.length.toBitVec.toNat = hdr.length.toNat := rfl
  rw [BitVec.toInt_eq_toNat_cond, htoNat]
  split
  · next h => rw [if_pos (by omega)]
  · next h =>
    rw [if_neg (by omega)]
    rfl

theorem fine_returnHeader (hdr : UsbmuxdHeader) (payload : Payload) : Fine (returnHeader hdr payload) ↔
    2 ^ 31 ≤ hdr.length.toNat ∨ sizeofHeader ≤ hdr.length.toNat ∧ payload ≠ .kept := by
  have hlt := hdr.length.toNat_lt
  rw [returnHeader, Fine, toInt_length]
  split
  · next h =>
    constructor
    · rintro (hneg | ⟨-, hfine⟩)
      · omega
      · exact .inr hfine
    · rintro (hlong | hfine)
      · omega
      · exact .inr ⟨rfl, hfine⟩
  · next h =>
    exact iff_of_true (.inl (by omega)) (.inl (by omega))

theorem fine_dwval (message val : UInt32) :
    Fine (returnHeader { hdr with length := 20, message := message } (.dwval val)) ↔ True := by
  rw [iff_true, fine_returnHeader]
  exact .inr ⟨show sizeofHeader ≤ (20 : UInt32).toNat by decide, fun h => nomatch h⟩

theorem yields_resultMessage (h : FromXml dict) : Yields (resultMessage hdr dict) Fine ↔
    ∃ node, item dict (lit "Number") = some node ∧ node.nodeType = .uint := by
  have hread := (plistDictGetItem_read h (lit "Number")).2
  rw [resultMessage, yields_bind, yields_item h, yields_bind]
  cases hnode : item dict (lit "Number") with
  | none => exact ⟨fun ⟨_, h, _⟩ => (nomatch h), fun ⟨_, h, _⟩ => (nomatch h)⟩
  | some node =>
    have hval := yields_uintVal (hread _ hnode)
      (P := fun val => Yields (.ok (returnHeader
        { hdr with length := 20, message := messageResult } (.dwval val.toUInt32)) :
          Except Abort Received) Fine) (fun val => yields_ok.trans (fine_dwval _ _))
    refine hval.trans ⟨fun hn => ⟨node, rfl, hn.1⟩, ?_⟩
    rintro ⟨_, ⟨⟩, hn⟩
    exact ⟨hn, trivial⟩

theorem yields_handleMessage (h : FromXml dict) {message : UInt32} :
    Yields (handleMessage hdr dict message) Fine ↔
      (∀ node, item dict (lit "DeviceID") = some node → node.nodeType = .uint) ∧
        ((item dict (lit "DeviceID")).isSome ∨ 2 ^ 31 ≤ hdr.length.toNat) := by
  have hread := (plistDictGetItem_read h (lit "DeviceID")).2
  rw [handleMessage, yields_bind, yields_item h]
  cases hnode : item dict (lit "DeviceID") with
  | none =>
    refine yields_ok.trans ?_
    rw [fine_returnHeader]
    constructor
    · rintro (hlong | ⟨-, hset⟩)
      · exact ⟨fun _ hn => (nomatch hn), .inr hlong⟩
      · exact absurd rfl hset
    · rintro ⟨-, hsome | hlong⟩
      · cases hsome
      · exact .inl hlong
  | some node =>
    dsimp only
    rw [yields_bind, yields_uintVal (hread _ hnode) fun val => yields_ok.trans (fine_dwval _ _)]
    constructor
    · rintro ⟨hn, -⟩
      exact ⟨fun _ heq => Option.some.inj heq ▸ hn, .inl rfl⟩
    · rintro ⟨hn, -⟩
      exact ⟨hn _ rfl, trivial⟩

theorem yields_recordUint (h : FromXml dict) (key : List UInt8) {P : UInt64 → Prop} {Q : Prop}
    (hP : ∀ val, P val ↔ Q) : Yields (recordUint dict key) P ↔ Q := by
  have hread := (plistDictGetItem_read h key).2
  rw [recordUint, yields_bind, yields_item h]
  cases hnode : item dict key with
  | none => exact yields_ok.trans (hP 0)
  | some node =>
    dsimp only
    split
    · next hn =>
      rw [yields_uintVal (hread _ hnode) hP]
      exact ⟨And.right, fun hq => ⟨hn, hq⟩⟩
    · exact yields_ok.trans (hP 0)

theorem yields_recordSerial (h : FromXml dict) {P : List UInt8 → Prop} {Q : Prop}
    (hP : ∀ s, P s ↔ Q) : Yields (recordSerial dict) P ↔ SerialOk dict ∧ Q := by
  have hread := (plistDictGetItem_read h (lit "SerialNumber")).2
  rw [recordSerial, yields_bind, yields_item h, SerialOk]
  cases hnode : item dict (lit "SerialNumber") with
  | none =>
    exact (yields_ok.trans (hP [])).trans ⟨fun hq => ⟨fun _ _ hn => (nomatch hn), hq⟩, And.right⟩
  | some node =>
    dsimp only
    split
    · next hn =>
      obtain ⟨s, length, rfl⟩ := nodeType_string.mp hn
      rw [yields_stringVal (hread _ hnode), hP]
      refine and_congr_left fun _ => ⟨?_, fun hs => hs s length rfl⟩
      rintro hs s' length' ⟨⟩
      exact hs
    · next hn =>
      refine (yields_ok.trans (hP [])).trans ⟨fun hq => ⟨fun s length heq => ?_, hq⟩, And.right⟩
      cases heq
      exact absurd rfl hn

theorem yields_deviceRecord (h : FromXml dict) {P : DeviceRecord → Prop} {Q : Prop}
    (hP : ∀ dev, P dev ↔ Q) : Yields (deviceRecordFromPlist dict) P ↔ SerialOk dict ∧ Q := by
  rw [deviceRecordFromPlist]
  simp only [yields_bind, yields_ok, hP]
  rw [yields_recordUint h _ fun _ => yields_recordUint h _ fun _ =>
    yields_recordSerial h fun _ => yields_recordUint h _ fun _ => Iff.rfl]

theorem yields_attachedMessage (h : FromXml dict) : Yields (attachedMessage hdr dict) Fine ↔
    ∀ props, item dict (lit "Properties") = some props → SerialOk props := by
  have hread := (plistDictGetItem_read h (lit "Properties")).2
  rw [attachedMessage, yields_bind, yields_item h]
  cases hnode : item dict (lit "Properties") with
  | none => exact iff_of_true (yields_ok.2 fine_badMessage) fun _ hn => nomatch hn
  | some props =>
    have hprops := hread _ hnode
    dsimp only
    rw [yields_bind, yields_deviceRecord hprops (Q := True)]
    · exact ⟨fun hserial _ heq => Option.some.inj heq ▸ hserial.1, fun hs => ⟨hs _ rfl, trivial⟩⟩
    · intro dev
      rw [iff_true, yields_ok, fine_returnHeader]
      refine .inr ⟨?_, fun h => nomatch h⟩
      show sizeofHeader ≤ (UInt32.ofNat (sizeofHeader + sizeofDeviceRecord)).toNat
      decide

theorem yields_messageOf (h : FromXml dict) (message : List UInt8) :
    Yields (messageOf hdr dict message) Fine ↔ TameMessage hdr dict message := by
  rw [messageOf, TameMessage]
  by_cases hresult : message = lit "Result"
  · rw [if_pos hresult, if_pos hresult]
    exact yields_resultMessage h
  rw [if_neg hresult, if_neg hresult]
  by_cases hattached : message = lit "Attached"
  · rw [if_pos hattached, if_pos hattached]
    exact yields_attachedMessage h
  rw [if_neg hattached, if_neg hattached]
  by_cases hdetached : message = lit "Detached"
  · rw [if_pos hdetached, if_pos (.inl hdetached)]
    exact yields_handleMessage h
  rw [if_neg hdetached]
  by_cases hpaired : message = lit "Paired"
  · rw [if_pos hpaired, if_pos (.inr hpaired)]
    exact yields_handleMessage h
  rw [if_neg hpaired, if_neg fun hor => hor.elim hdetached hpaired, iff_true]
  exact yields_ok.2 fine_badMessage

theorem yields_plistPacket (hdr : UsbmuxdHeader) (h : FromXml dict) :
    Yields (plistPacket hdr dict) Fine ↔ Tame hdr dict := by
  have hread := (plistDictGetItem_read h (lit "MessageType")).2
  have hfine : Yields (.ok (returnHeader { hdr with length := 16 } (.plist dict)) :
      Except Abort Received) Fine := by
    rw [yields_ok, fine_returnHeader]
    exact .inr ⟨show sizeofHeader ≤ (16 : UInt32).toNat by decide, fun h => nomatch h⟩
  rw [plistPacket, yields_bind, yields_item h]
  cases hitem : item dict (lit "MessageType") with
  | none =>
    refine iff_of_true hfine ?_
    rintro message ⟨length, hs⟩
    rw [hitem] at hs
    cases hs
  | some node =>
    dsimp only
    by_cases hnode : node.nodeType = .string
    · obtain ⟨s, length, rfl⟩ := nodeType_string.mp hnode
      have hspoken : ∀ message, Says dict message ↔ message = s := by
        refine fun message => ⟨fun ⟨l, hm⟩ => ?_, fun hm => ⟨length, hm ▸ hitem⟩⟩
        rw [hitem] at hm
        cases hm
        rfl
      rw [if_neg (not_not.mpr hnode), yields_bind, yields_stringVal (hread _ hitem),
        yields_messageOf h]
      refine ⟨fun hs message hm => (hspoken message).1 hm ▸ hs, fun ht => ht s ((hspoken s).2 rfl)⟩
    · rw [if_pos hnode]
      refine iff_of_true hfine ?_
      rintro message ⟨length, hs⟩
      rw [hitem] at hs
      cases hs
      exact absurd rfl hnode

end Messages

/-! ## The call -/

section Call

variable {conv : Conv} {s : Socket} {hdr : UsbmuxdHeader}

theorem readPayload_tree {payload : List UInt8} {dict : Plist}
    (h : readPayload conv payload = .ok (some dict)) : FromXml dict := by
  rw [readPayload] at h
  split at h
  · cases h
  · cases h
  · next nodes root hread =>
    obtain ⟨hwell, hroot⟩ := plistFromXml_wellformed hread
    obtain ⟨t, ht, hxml⟩ := hwell.treeAt hroot (Nat.sub_le _ _)
    rw [ht] at h
    cases h
    exact hxml

theorem answers_plist (hfound : s.header = some hdr) (hplist : hdr.message = messagePlist)
    (r : Received) : Answers s r ↔ Fine r := by
  cases r with
  | spins => exact Iff.rfl
  | stopped _ => exact Iff.rfl
  | returned ret header payload =>
    refine or_congr_right ⟨?_, ?_⟩
    · rintro ⟨_, h⟩
      exact ⟨h.length, h.whole, h.set⟩
    · rintro ⟨hlength, hwhole, hset⟩
      exact ⟨hdr, hfound, hlength, hwhole, hset, fun hne => absurd hplist hne⟩

theorem fine_packetOf (hplist : hdr.message = messagePlist) (payload : List UInt8) :
    Fine (packetOf conv hdr payload) ↔ Readable conv hdr payload := by
  rw [packetOf, if_pos hplist, Readable]
  cases hread : readPayload conv payload with
  | error stop => exact ⟨False.elim, fun ⟨_, h, _⟩ => nomatch h⟩
  | ok r =>
    cases r with
    | none => exact iff_of_true fine_badMessage ⟨none, rfl, fun _ h => nomatch h⟩
    | some dict =>
      have hyields := yields_plistPacket hdr (readPayload_tree hread)
      dsimp only
      constructor
      · intro hfine
        refine ⟨some dict, rfl, fun _ heq => Option.some.inj heq ▸ hyields.1 ?_⟩
        cases hpacket : plistPacket hdr dict with
        | error a =>
          rw [hpacket] at hfine
          exact hfine.elim
        | ok r =>
          rw [hpacket] at hfine
          exact ⟨r, rfl, hfine⟩
      · rintro ⟨_, ⟨⟩, htame⟩
        obtain ⟨r, hr, hfine⟩ := hyields.2 (htame dict rfl)
        rw [hr]
        exact hfine

theorem answers_packetOf (hfound : s.header = some hdr) (hlength : sizeofHeader ≤ hdr.length.toNat)
    (hwhole : hdr.length.toNat ≤ s.stream.length) :
    Answers s (packetOf conv hdr (s.payload hdr)) ↔
      (hdr.message = messagePlist → Readable conv hdr (s.payload hdr)) := by
  by_cases hplist : hdr.message = messagePlist
  · rw [answers_plist hfound hplist, fine_packetOf hplist]
    exact ⟨fun h _ => h, fun h => h hplist⟩
  · refine iff_of_true ?_ fun h => absurd h hplist
    have hset : (if s.payload hdr = [] then Payload.null else .bytes (s.payload hdr)) ≠ .kept := by
      split <;> exact fun h => nomatch h
    rw [packetOf, if_neg hplist]
    rcases (fine_returnHeader hdr
      (if s.payload hdr = [] then .null else .bytes (s.payload hdr))).2
        (.inr ⟨hlength, hset⟩) with hneg | ⟨hret, -, -⟩
    · exact .inl hneg
    · exact .inr ⟨hdr, hfound, hret, hlength, hset, fun _ => ⟨rfl, hwhole, rfl⟩⟩

theorem payloadSize_toNat (hlength : sizeofHeader ≤ hdr.length.toNat) :
    (hdr.length - UInt32.ofNat sizeofHeader).toNat = hdr.length.toNat - sizeofHeader := by
  have hle : UInt32.ofNat sizeofHeader ≤ hdr.length := UInt32.le_iff_toNat_le.2 hlength
  rw [UInt32.toNat_sub_of_le _ _ hle]
  rfl

theorem answers_receiveBody {left : Socket} (hfound : s.header = some hdr)
    (hlength : sizeofHeader ≤ hdr.length.toNat) (hleft : left.stream = s.stream.drop sizeofHeader)
    (hends : left.Ends ↔ s.Ends) (hheader : sizeofHeader ≤ s.stream.length) :
    Answers s (receiveBody conv left hdr).1 ↔ BodyOrderly conv s hdr := by
  obtain ⟨arrivals, closed⟩ := left
  rw [receiveBody, payloadSize_toNat hlength]
  dsimp only
  split
  · next hpos =>
    obtain ⟨hcomplete, hshort, hspins⟩ :=
      receivePayload_result (Nat.lt_succ_self arrivals.length) hpos closed []
    have hmissing : (Socket.mk arrivals closed).stream.length =
        s.stream.length - sizeofHeader := by
      rw [hleft, List.length_drop]
    generalize receivePayload (arrivals.length + 1) ⟨arrivals, closed⟩
      (hdr.length.toNat - sizeofHeader) [] = r at hcomplete hshort hspins ⊢
    obtain ⟨r, left⟩ := r
    by_cases hwhole : hdr.length.toNat ≤ s.stream.length
    · obtain ⟨rfl, -, -⟩ := hcomplete (by omega)
      rw [List.nil_append, hleft, ← Socket.payload]
      refine (answers_packetOf hfound hlength hwhole).trans ?_
      exact ⟨fun h => ⟨hlength, .inl hwhole, fun _ => h⟩, fun h => h.tame hwhole⟩
    · have hlt : (Socket.mk arrivals closed).stream.length < hdr.length.toNat - sizeofHeader := by
        omega
      have hnot : BodyOrderly conv s hdr ↔ s.Ends :=
        ⟨fun h => h.comes.resolve_left hwhole, fun h => ⟨hlength, .inr h, fun h => absurd h hwhole⟩⟩
      rw [hnot, ← hends]
      by_cases hopen : (Socket.mk arrivals closed).Ends
      · obtain rfl := hshort hlt hopen
        exact iff_of_true (.inl (by decide)) hopen
      · obtain rfl := hspins hlt hopen
        exact iff_of_false id hopen
  · next hzero =>
    have hwhole : hdr.length.toNat ≤ s.stream.length := by omega
    have hnil : s.payload hdr = [] := by
      rw [Socket.payload, show hdr.length.toNat - sizeofHeader = 0 by omega, List.take_zero]
    rw [← hnil, answers_packetOf hfound hlength hwhole]
    exact ⟨fun h => ⟨hlength, .inl hwhole, fun _ => h⟩, fun h => h.tame hwhole⟩

theorem packetRight_whole {b : UInt8} {more : List UInt8} {arrivals : List Arrival}
    (hwhole : sizeofHeader ≤ (b :: more).length) (closed : Bool) :
    PacketRight conv ⟨.segment b more :: arrivals, closed⟩ ↔
      Orderly conv ⟨.segment b more :: arrivals, closed⟩ := by
  have hstream : Socket.stream ⟨.segment b more :: arrivals, closed⟩ =
      b :: more ++ delivered arrivals := rfl
  have htake : (b :: more).take sizeofHeader =
      (Socket.stream ⟨.segment b more :: arrivals, closed⟩).take sizeofHeader := by
    rw [hstream, List.take_append_of_le_length hwhole]
  have hheader : sizeofHeader ≤
      (Socket.stream ⟨.segment b more :: arrivals, closed⟩).length := by
    rw [hstream, List.length_append]
    omega
  have hfound : Socket.header ⟨.segment b more :: arrivals, closed⟩ =
      some (.ofBytes ((b :: more).take sizeofHeader)) := by
    rw [Socket.header, if_pos hheader, htake]
  have hrun : receivePacket conv ⟨.segment b more :: arrivals, closed⟩ =
      receiveBody conv ⟨putBack ((b :: more).drop sizeofHeader) arrivals, closed⟩
        (.ofBytes ((b :: more).take sizeofHeader)) := by
    rw [receivePacket, socketReceive_segment]
    dsimp only
    rw [if_neg (by rw [List.length_take]; omega)]
  have horderly : Orderly conv ⟨.segment b more :: arrivals, closed⟩ ↔
      BodyOrderly conv ⟨.segment b more :: arrivals, closed⟩
        (.ofBytes ((b :: more).take sizeofHeader)) := by
    rw [Orderly, htake]
    exact and_iff_right hwhole
  have hleft : Socket.stream ⟨putBack ((b :: more).drop sizeofHeader) arrivals, closed⟩ =
      (Socket.stream ⟨.segment b more :: arrivals, closed⟩).drop sizeofHeader := by
    rw [hstream, List.drop_append_of_le_length hwhole]
    exact delivered_putBack _ _
  have hends : Socket.Ends ⟨putBack ((b :: more).drop sizeofHeader) arrivals, closed⟩ ↔
      Socket.Ends ⟨.segment b more :: arrivals, closed⟩ := by
    rw [Socket.Ends, Socket.Ends, breaks_putBack]
    rfl
  rw [PacketRight, hrun, horderly]
  by_cases hlength : sizeofHeader ≤
      (UsbmuxdHeader.ofBytes ((b :: more).take sizeofHeader)).length.toNat
  · rw [answers_receiveBody hfound hlength hleft hends hheader]
    refine and_iff_right fun hdr hdr' => ?_
    rw [hfound] at hdr'
    rwa [← Option.some.inj hdr']
  · exact iff_of_false (fun h => hlength (h.1 _ hfound)) fun h => hlength h.length

/-- **A packet from the daemon.**  The call brings an error or the packet at the front of the bytes,
without a size that wraps, exactly if the first call of `recv` is in order, and what follows is. -/
theorem packetRight_iff (conv : Conv) (s : Socket) : PacketRight conv s ↔ Orderly conv s := by
  obtain ⟨arrivals, closed⟩ := s
  have hnone : ∀ s : Socket, s.stream = [] → ∀ hdr, s.header = some hdr →
      sizeofHeader ≤ hdr.length.toNat := by
    intro s hnil hdr hfound
    rw [Socket.header, hnil, if_neg (by decide)] at hfound
    cases hfound
  match arrivals with
  | [] =>
    cases closed with
    | true => exact iff_of_true ⟨hnone _ rfl, .inl (by decide)⟩ rfl
    | false =>
      refine iff_of_false ?_ Bool.false_ne_true
      rintro ⟨-, hneg | ⟨hdr, hpacket⟩⟩
      · exact absurd hneg (by decide)
      · exact absurd hpacket.whole (by decide)
  | .failed errno :: arrivals =>
    refine iff_of_true ⟨hnone _ rfl, .inl ?_⟩ trivial
    show -((errno : Int) + 1) < 0
    omega
  | .timeout :: arrivals =>
    refine iff_of_false ?_ id
    rintro ⟨-, hneg | ⟨hdr, hpacket⟩⟩
    · exact absurd hneg (by decide)
    · exact absurd hpacket.whole (by decide)
  | .segment b more :: arrivals =>
    by_cases hshort : (b :: more).length < sizeofHeader
    · have hrun : (receivePacket conv ⟨.segment b more :: arrivals, closed⟩).1 =
          .returned (b :: more).length .zero .kept := by
        rw [receivePacket, socketReceive_segment]
        dsimp only
        rw [List.take_of_length_le (Nat.le_of_lt hshort), if_pos hshort]
      refine iff_of_false ?_ fun h => absurd h.1 (Nat.not_le.2 hshort)
      rintro ⟨-, hanswers⟩
      rw [hrun] at hanswers
      rcases hanswers with hneg | ⟨hdr, hpacket⟩
      · exact absurd hneg (by omega)
      · exact absurd hpacket.whole (by decide)
    · exact packetRight_whole (Nat.le_of_not_lt hshort) closed

end Call

/-- A `Result` of the old protocol, whose header comes in two pieces, and a header of length 8. -/
theorem packetRight_refuted :
    (receivePacket ⟨fun _ => 0, fun _ => 0, fun _ => 0⟩
      ⟨[.segment 20 [0, 0, 0], .segment 0 [0, 0, 0, 1, 0, 0, 0, 1, 0, 0, 0, 0, 0, 0, 0]], true⟩).1 =
        .returned 4 .zero .kept ∧
    ¬ PacketRight ⟨fun _ => 0, fun _ => 0, fun _ => 0⟩
      ⟨[.segment 20 [0, 0, 0], .segment 0 [0, 0, 0, 1, 0, 0, 0, 1, 0, 0, 0, 0, 0, 0, 0]], true⟩ ∧
    ¬ PacketRight ⟨fun _ => 0, fun _ => 0, fun _ => 0⟩
      ⟨[.segment 8 [0, 0, 0, 0, 0, 0, 0, 1, 0, 0, 0, 1, 0, 0, 0]], true⟩ := by
  refine ⟨rfl, ?_, ?_⟩
  · rintro ⟨-, hneg | ⟨hdr, hpacket⟩⟩
    · exact absurd hneg (by decide)
    · exact absurd hpacket.whole (by decide)
  · rintro ⟨hlength, -⟩
    exact absurd (hlength _ rfl) (by decide +kernel)

end IDeviceStack.Libusbmuxd
