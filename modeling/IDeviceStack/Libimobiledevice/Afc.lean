/-
# `Libimobiledevice.Afc` — requests and replies of the file service

`afc.c`: an operation sends one request with `afc_dispatch_packet` and takes one reply with
`afc_receive_data`.  A packet is a header of forty bytes, with the length of the whole
packet and that of its first part, and the rest.

* The transport is lossless and ordered, but each send and each read may be cut: the
  caps of an operation say how many bytes go through at most, and a read that gets
  none has run into the timeout.  A read without a cap is not cut.
* The device takes the bytes it gets as packets, and answers each with one packet of its
  own; what stands in the header of that is its own affair.
* `size_t` has 64 bits.  A result is its number; a conversion to `afc_error_t` keeps the
  low 32 bits.  What is written past a block is an `Overflow`.  Memory is not short.

**Proved here.**  `synchronised_iff`.
-/
import IDeviceStack.Lib.Endian
import IDeviceStack.Lib.Fault

namespace IDeviceStack.Libimobiledevice

open Lib List

/-! ## Packets -/

/-- `AFCPacket`. -/
structure AFCPacket where
  magic : List UInt8
  entireLength : Nat
  thisLength : Nat
  packetNum : Nat
  operation : Nat

/-- `sizeof(AFCPacket)`. -/
def sizeofAFCPacket : Nat := 40

/-- `AFC_MAGIC`, `CFA6LPAA`. -/
def afcMagic : List UInt8 := [0x43, 0x46, 0x41, 0x36, 0x4c, 0x50, 0x41, 0x41]

/-- `AFCPacket_to_LE`: the bytes of a header. -/
def AFCPacket.toLE (p : AFCPacket) : List UInt8 :=
  p.magic ++ (leBytes 8 p.entireLength ++ (leBytes 8 p.thisLength ++
    (leBytes 8 p.packetNum ++ leBytes 8 p.operation)))

/-- `AFCPacket_from_LE`. -/
def AFCPacket.fromLE (bytes : List UInt8) : AFCPacket where
  magic := bytes.take 8
  entireLength := leVal ((bytes.drop 8).take 8)
  thisLength := leVal ((bytes.drop 16).take 8)
  packetNum := leVal ((bytes.drop 24).take 8)
  operation := leVal ((bytes.drop 32).take 8)

/-- The fields are as wide as they are. -/
structure AFCPacket.Fits (p : AFCPacket) : Prop where
  magic : p.magic.length = 8
  entireLength : p.entireLength < 2 ^ 64
  thisLength : p.thisLength < 2 ^ 64
  packetNum : p.packetNum < 2 ^ 64
  operation : p.operation < 2 ^ 64

/-- The arguments of `afc_dispatch_packet`; the lengths are `uint32_t`. -/
structure AfcRequest where
  operation : Nat
  data : List UInt8
  payload : List UInt8
  operation_lt : operation < 2 ^ 64
  data_lt : data.length < 2 ^ 32
  payload_lt : payload.length < 2 ^ 32

/-- The header of a request. -/
def AfcRequest.header (r : AfcRequest) (packetNum : Nat) : AFCPacket where
  magic := afcMagic
  entireLength := sizeofAFCPacket + r.data.length + r.payload.length
  thisLength := sizeofAFCPacket + r.data.length
  packetNum := packetNum
  operation := r.operation

/-- A request as a whole. -/
def AfcRequest.bytes (r : AfcRequest) (packetNum : Nat) : List UInt8 :=
  (r.header packetNum).toLE ++ (r.data ++ r.payload)

/-- A packet of the device: its length is the one that it tells. -/
structure AfcReply where
  header : AFCPacket
  body : List UInt8
  fits : header.Fits
  entireLength_eq : header.entireLength = sizeofAFCPacket + body.length

def AfcReply.bytes (r : AfcReply) : List UInt8 := r.header.toLE ++ r.body

/-! ## Sending -/

/-- How many bytes the three sends of a request let through at most. -/
structure SendCaps where
  header : Nat
  data : Nat
  payload : Nat

/-- `afc_dispatch_packet`, behind the count of the packet: the bytes that were sent, and their
number.  The result is `AFC_E_SUCCESS` in any case. -/
def afcDispatchPacket (packetNum : Nat) (r : AfcRequest) (caps : SendCaps) : List UInt8 × Nat :=
  let header := (r.header packetNum).toLE
  let sent := min caps.header sizeofAFCPacket
  let sentData := min caps.data r.data.length
  let sentPayload := min caps.payload r.payload.length
  if sent < sizeofAFCPacket then (header.take sent, sent)
  else if sentData < r.data.length then (header ++ r.data.take sentData, sent + sentData)
  else (header ++ (r.data ++ r.payload.take sentPayload), sent + sentData + sentPayload)

/-! ## Receiving -/

/-- What the device has sent and nobody has read, and the caps of the reads to come. -/
structure Wire where
  stream : List UInt8
  caps : List Nat

def serviceReceive (size : Nat) (w : Wire) : List UInt8 × Wire :=
  let n := min (w.caps.headD size) size
  (w.stream.take n, ⟨w.stream.drop n, w.caps.tail⟩)

/-- A read wrote behind the block it was given. -/
inductive Overflow where
  | overflow

/-- What `afc_receive_data` returns, with `*bytes` and `*bytes_recv`. -/
structure AfcResult where
  error : Nat
  bytes : Option (List UInt8)
  bytesRecv : Nat

def AFC_E_SUCCESS : Nat := 0
def AFC_E_OP_HEADER_INVALID : Nat := 2
def AFC_E_OP_NOT_SUPPORTED : Nat := 15
def AFC_E_IO_ERROR : Nat := 20
def AFC_E_MUX_ERROR : Nat := 30
def AFC_E_NOT_ENOUGH_DATA : Nat := 32

def AFC_OP_STATUS : Nat := 1
def AFC_OP_DATA : Nat := 2
def AFC_OP_FILE_OPEN_RES : Nat := 14
def AFC_OP_FILE_TELL_RES : Nat := 19

/-- `param1`, which is `-1` without eight bytes to read it from. -/
def param1 (dump : List UInt8) : Nat :=
  if dump.length ≥ 8 then leVal (dump.take 8) else 2 ^ 64 - 1

/-- The end of `afc_receive_data`, which looks at the operation; `last` is what the last read set
`*bytes_recv` to. -/
def afcFinish (operation : Nat) (dump : List UInt8) (last : Nat) : AfcResult :=
  if operation = AFC_OP_STATUS then
    if param1 dump ≠ AFC_E_SUCCESS then ⟨param1 dump % 2 ^ 32, none, last⟩
    else ⟨AFC_E_SUCCESS, some dump, dump.length⟩
  else if operation = AFC_OP_DATA ∨ operation = AFC_OP_FILE_OPEN_RES ∨
      operation = AFC_OP_FILE_TELL_RES then
    ⟨AFC_E_SUCCESS, some dump, dump.length⟩
  else ⟨AFC_E_OP_NOT_SUPPORTED, none, 0⟩

/-- The loop for what follows the first part. -/
def receiveRest (entireLen : Nat) : Nat → List UInt8 → Nat → Wire → (List UInt8 × Nat) × Wire
  | 0, dump, last, w => ((dump, last), w)
  | fuel + 1, dump, last, w =>
    if dump.length < entireLen then
      let r := serviceReceive (entireLen - dump.length) w
      if r.1 = [] then ((dump, 0), r.2)
      else receiveRest entireLen fuel (dump ++ r.1) r.1.length r.2
    else ((dump, last), w)

/-- A length without the header, as a `uint32_t`. -/
def lengthBehindHeader (length : Nat) : Nat := (length % 2 ^ 32 + 2 ^ 32 - sizeofAFCPacket) % 2 ^ 32

/-- The first part, which is read at once. -/
def receiveFirst (thisLen : Nat) (w : Wire) : List UInt8 × Wire :=
  if thisLen > 0 then serviceReceive thisLen w else ([], w)

/-- `afc_receive_data` behind the checks of the header. -/
def afcReceiveBody (header : AFCPacket) (w : Wire) : Except Overflow (AfcResult × Wire) :=
  let entireLen := lengthBehindHeader header.entireLength
  let thisLen := lengthBehindHeader header.thisLength
  let first := receiveFirst thisLen w
  if first.1.length > entireLen then .error .overflow
  else if first.1.length < thisLen then
    .ok (⟨AFC_E_NOT_ENOUGH_DATA, none, first.1.length⟩, first.2)
  else
    let last := if thisLen > 0 then first.1.length else sizeofAFCPacket
    let rest := receiveRest entireLen entireLen first.1 last first.2
    .ok (afcFinish header.operation rest.1.1 rest.1.2, rest.2)

def afcReceiveData (packetNum : Nat) (w : Wire) : Except Overflow (AfcResult × Wire) :=
  let r := serviceReceive sizeofAFCPacket w
  if r.1.length < sizeofAFCPacket then .ok (⟨AFC_E_MUX_ERROR, none, r.1.length⟩, r.2)
  else
    let header := AFCPacket.fromLE r.1
    if header.packetNum ≠ packetNum then
      .ok (⟨AFC_E_OP_HEADER_INVALID, none, sizeofAFCPacket⟩, r.2)
    else if header.thisLength < sizeofAFCPacket then
      .ok (⟨AFC_E_OP_HEADER_INVALID, none, sizeofAFCPacket⟩, r.2)
    else if header.thisLength = header.entireLength ∧ header.entireLength = sizeofAFCPacket then
      .ok (⟨if header.operation = AFC_OP_DATA then AFC_E_SUCCESS else AFC_E_IO_ERROR, none, 0⟩, r.2)
    else afcReceiveBody header r.2

/-! ## The client and the device -/

/-- The packets that the device finds in what it got, and what is left. -/
def devicePackets : Nat → List UInt8 → List (List UInt8) × List UInt8
  | 0, u => ([], u)
  | fuel + 1, u =>
    let n := max sizeofAFCPacket (AFCPacket.fromLE u).entireLength
    if u.length < sizeofAFCPacket ∨ u.length < n then ([], u)
    else
      let r := devicePackets fuel (u.drop n)
      (u.take n :: r.1, r.2)

/-- A client with its connection: the count of the packets, what the device has not taken for a
packet yet, and what of its replies was not read. -/
structure Afc where
  packetNum : Nat
  toDevice : List UInt8
  fromDevice : List UInt8

/-- A new client. -/
def Afc.new : Afc := ⟨0, [], []⟩

/-- One operation: the request, the answers of the device, and how the transport cuts. -/
structure AfcCall where
  request : AfcRequest
  answer : List UInt8 → AfcReply
  sends : SendCaps
  reads : List Nat

/-- `packet_num` of the next request. -/
def Afc.nextNum (s : Afc) : Nat := (s.packetNum + 1) % 2 ^ 64

/-- The packets of the device while an operation goes on. -/
def Afc.taken (s : Afc) (c : AfcCall) : List (List UInt8) × List UInt8 :=
  let u := s.toDevice ++ (afcDispatchPacket s.nextNum c.request c.sends).1
  devicePackets u.length u

/-- What there is to read then. -/
def Afc.pending (s : Afc) (c : AfcCall) : List UInt8 :=
  s.fromDevice ++ (s.taken c).1.flatMap fun p => (c.answer p).bytes

/-- An operation: the result of `afc_receive_data`, and the client after it. -/
def Afc.call (s : Afc) (c : AfcCall) : Except Overflow (AfcResult × Afc) :=
  (afcReceiveData s.nextNum ⟨s.pending c, c.reads⟩).map fun r =>
    (r.1, ⟨s.nextNum, (s.taken c).2, r.2.stream⟩)

def Afc.step (s : Afc) (c : AfcCall) : Except Overflow Afc := (s.call c).map Prod.snd

/-- The reply to the request of a call. -/
def Afc.reply (s : Afc) (c : AfcCall) : AfcReply := c.answer (c.request.bytes s.nextNum)

/-! ## Being synchronised -/

/-- A body is taken whole, and a success comes with all of it. -/
def TakenWhole (body : List UInt8) (r : Except Overflow (AfcResult × Wire)) : Prop :=
  ∃ result w, r = .ok (result, w) ∧ w.stream = [] ∧
    (result.error = AFC_E_SUCCESS → result.bytes.getD [] = body ∧ result.bytesRecv = body.length)

/-- The operation takes the reply to its own request: the device got exactly that request, there is
nothing in front of its reply, and the reply is taken whole. -/
structure Afc.Synchronised (s : Afc) (c : AfcCall) : Prop where
  answered : s.taken c = ([c.request.bytes s.nextNum], [])
  atReply : s.fromDevice = []
  takenWhole : TakenWhole (s.reply c).body (afcReceiveData s.nextNum ⟨s.pending c, c.reads⟩)

/-- Everything is sent. -/
def AfcCall.SentWhole (c : AfcCall) : Prop :=
  sizeofAFCPacket ≤ c.sends.header ∧ c.request.data.length ≤ c.sends.data ∧
    c.request.payload.length ≤ c.sends.payload

/-- Reads with these caps bring `n` bytes before one brings none. -/
def Brings : List Nat → Nat → Prop
  | [], _ => True
  | cap :: caps, n => n = 0 ∨ (cap ≠ 0 ∧ Brings caps (n - cap))

/-- A status that is not zero, but becomes so as an `afc_error_t`. -/
def LostStatus (operation : Nat) (body : List UInt8) : Prop :=
  operation = AFC_OP_STATUS ∧ param1 body ≠ 0 ∧ param1 body % 2 ^ 32 = 0

/-- The reads of a body: the first part comes at once, the others before a timeout.  A first part
that is longer than the body comes as far as there is one. -/
def BodyServed (header : AFCPacket) (body : List UInt8) (caps : List Nat) : Prop :=
  let thisLen := lengthBehindHeader header.thisLength
  if body.length < thisLen then body.length ≤ caps.headD body.length
  else
    thisLen ≤ caps.headD thisLen ∧
      Brings (if thisLen > 0 then caps.tail else caps) (body.length - thisLen) ∧
      ¬ LostStatus header.operation body

/-- A reply that `afc_receive_data` can cope with. -/
def ReplyServed (packetNum : Nat) (reply : AfcReply) (caps : List Nat) : Prop :=
  sizeofAFCPacket ≤ caps.headD sizeofAFCPacket ∧
    (reply.body = [] ∨
      (reply.header.packetNum = packetNum ∧ sizeofAFCPacket ≤ reply.header.thisLength ∧
        reply.body.length < 2 ^ 32 ∧ BodyServed reply.header reply.body caps.tail))

/-- Nothing goes wrong in the transport, and the reply fits. -/
def Afc.Served (s : Afc) (c : AfcCall) : Prop :=
  c.SentWhole ∧ ReplyServed s.nextNum (s.reply c) c.reads

/-! ## Headers -/

theorem AFCPacket.length_toLE {p : AFCPacket} (hp : p.Fits) : p.toLE.length = sizeofAFCPacket := by
  simp [toLE, hp.magic, sizeofAFCPacket]

theorem AFCPacket.fromLE_toLE {p : AFCPacket} (hp : p.Fits) (rest : List UInt8) :
    fromLE (p.toLE ++ rest) = p := by
  have hmagic := hp.magic
  have hdrop : ∀ (k x : Nat) (u : List UInt8), (leBytes 8 x ++ u).drop (8 + k) = u.drop k :=
    fun k x u => by rw [← drop_drop, drop_left' (length_leBytes 8 x)]
  have hval : ∀ (x : Nat) (u : List UInt8), x < 2 ^ 64 → leVal ((leBytes 8 x ++ u).take 8) = x :=
    fun x u hx => by rw [take_left' (length_leBytes 8 x), leVal_leBytes (by simpa using hx)]
  have hskip : ∀ k, (p.magic ++ (leBytes 8 p.entireLength ++ (leBytes 8 p.thisLength ++
      (leBytes 8 p.packetNum ++ (leBytes 8 p.operation ++ rest))))).drop (8 + k) =
      (leBytes 8 p.entireLength ++ (leBytes 8 p.thisLength ++
      (leBytes 8 p.packetNum ++ (leBytes 8 p.operation ++ rest)))).drop k :=
    fun k => by rw [← drop_drop, drop_left' hmagic]
  obtain ⟨magic, entireLength, thisLength, packetNum, operation⟩ := p
  simp only [fromLE, toLE, append_assoc] at hskip ⊢
  rw [hskip 0, hskip 8, hskip 16, hskip 24, hdrop 0, hdrop 8, hdrop 16, hdrop 0, hdrop 8, hdrop 0,
    drop_zero, drop_zero, drop_zero, drop_zero, take_left' hmagic,
    hval _ _ hp.entireLength, hval _ _ hp.thisLength, hval _ _ hp.packetNum, hval _ _ hp.operation]

theorem AfcRequest.header_fits (r : AfcRequest) {packetNum : Nat} (hnum : packetNum < 2 ^ 64) :
    (r.header packetNum).Fits := by
  have hdata := r.data_lt
  have hpayload := r.payload_lt
  exact ⟨rfl, by simp only [header, sizeofAFCPacket]; omega,
    by simp only [header, sizeofAFCPacket]; omega, hnum, r.operation_lt⟩

theorem AfcRequest.length_bytes (r : AfcRequest) {packetNum : Nat} (hnum : packetNum < 2 ^ 64) :
    (r.bytes packetNum).length = (r.header packetNum).entireLength := by
  rw [bytes, length_append, AFCPacket.length_toLE (r.header_fits hnum), length_append,
    header, Nat.add_assoc]

theorem Afc.nextNum_lt (s : Afc) : s.nextNum < 2 ^ 64 := Nat.mod_lt _ (by decide)

/-! ## The request -/

section Request

variable {r : AfcRequest} {packetNum : Nat} (hnum : packetNum < 2 ^ 64) {caps : SendCaps}
include hnum

theorem devicePackets_request :
    devicePackets (r.bytes packetNum).length (r.bytes packetNum) = ([r.bytes packetNum], []) := by
  have hfits := r.header_fits hnum
  have hlen := r.length_bytes hnum
  have hge : sizeofAFCPacket ≤ (r.bytes packetNum).length := by
    rw [hlen]
    simp only [AfcRequest.header]
    omega
  have hread : AFCPacket.fromLE (r.bytes packetNum) = r.header packetNum :=
    AFCPacket.fromLE_toLE hfits _
  obtain ⟨fuel, hfuel⟩ : ∃ fuel, (r.bytes packetNum).length = fuel + 1 :=
    ⟨_, (Nat.succ_pred_eq_of_pos (Nat.lt_of_lt_of_le (by decide) hge)).symm⟩
  have hnil : devicePackets fuel [] = ([], []) := by
    cases fuel with
    | zero => rfl
    | succ fuel => rw [devicePackets, if_pos (.inl (by decide))]
  rw [hfuel, devicePackets, hread, if_neg (by omega), ← hlen, Nat.max_eq_right hge, take_length,
    drop_length, hnil]

theorem devicePackets_cut {u v : List UInt8} (hsplit : r.bytes packetNum = u ++ v) (hv : v ≠ [])
    (fuel : Nat) : (devicePackets fuel u).1 = [] := by
  cases fuel with
  | zero => rfl
  | succ fuel =>
    have hfits := r.header_fits hnum
    have hlen := r.length_bytes hnum
    have hvlen : 0 < v.length := length_pos_iff.mpr hv
    rw [hsplit, length_append] at hlen
    by_cases hshort : u.length < sizeofAFCPacket
    · rw [devicePackets, if_pos (.inl hshort)]
    · -- the header is there, and tells a longer packet
      have hhead : u.take sizeofAFCPacket = (r.header packetNum).toLE := by
        have htake := congrArg (List.take sizeofAFCPacket) hsplit
        rw [AfcRequest.bytes, take_left' (AFCPacket.length_toLE hfits),
          take_append_of_le_length (Nat.le_of_not_lt hshort)] at htake
        exact htake.symm
      have hread : AFCPacket.fromLE u = r.header packetNum := by
        have hall := take_append_drop sizeofAFCPacket u
        rw [← hall, hhead]
        exact AFCPacket.fromLE_toLE hfits _
      rw [devicePackets, hread, if_pos (.inr (by omega))]

theorem devicePackets_dispatch_iff (hsent : List UInt8)
    (hdef : hsent = (afcDispatchPacket packetNum r caps).1) :
    devicePackets hsent.length hsent = ([r.bytes packetNum], []) ↔
      sizeofAFCPacket ≤ caps.header ∧ r.data.length ≤ caps.data ∧ r.payload.length ≤ caps.payload := by
  have hfits := r.header_fits hnum
  have hhead := AFCPacket.length_toLE hfits
  -- what is left out of the request
  have hcut : ∀ v, r.bytes packetNum = hsent ++ v → v ≠ [] →
      ¬ devicePackets hsent.length hsent = ([r.bytes packetNum], []) := by
    intro v hsplit hv heq
    have hnone := devicePackets_cut hnum hsplit hv hsent.length
    rw [heq] at hnone
    cases hnone
  have hne : ∀ {xs : List UInt8} {k : Nat}, k < xs.length → xs.drop k ≠ [] := by
    intro xs k hk
    rw [← length_pos_iff, length_drop]
    omega
  simp only [afcDispatchPacket] at hdef
  by_cases h1 : min caps.header sizeofAFCPacket < sizeofAFCPacket
  · rw [if_pos h1] at hdef
    refine iff_of_false (hcut ((r.header packetNum).toLE.drop (min caps.header sizeofAFCPacket) ++
      (r.data ++ r.payload)) ?_ ?_) (by omega)
    · rw [hdef, ← append_assoc, take_append_drop]
      rfl
    · exact append_ne_nil_of_left_ne_nil (hne (by omega)) _
  rw [if_neg h1] at hdef
  by_cases h2 : min caps.data r.data.length < r.data.length
  · rw [if_pos h2] at hdef
    refine iff_of_false (hcut (r.data.drop (min caps.data r.data.length) ++ r.payload) ?_ ?_)
      (by omega)
    · rw [hdef, append_assoc, ← append_assoc (r.data.take _), take_append_drop]
      rfl
    · exact append_ne_nil_of_left_ne_nil (hne h2) _
  rw [if_neg h2] at hdef
  by_cases h3 : r.payload.length ≤ caps.payload
  · have hall : hsent = r.bytes packetNum := by
      rw [hdef, Nat.min_eq_right h3, take_length]
      rfl
    rw [hall]
    exact iff_of_true (devicePackets_request hnum) ⟨by omega, by omega, h3⟩
  · refine iff_of_false (hcut (r.payload.drop (min caps.payload r.payload.length)) ?_
      (hne (by omega))) (by omega)
    rw [hdef, append_assoc, append_assoc, take_append_drop]
    rfl

end Request

/-! ## The reply -/

theorem serviceReceive_fst_append (size : Nat) (w : Wire) :
    (serviceReceive size w).1 ++ (serviceReceive size w).2.stream = w.stream :=
  take_append_drop _ _

theorem length_serviceReceive (size : Nat) (w : Wire) :
    (serviceReceive size w).1.length = min (min (w.caps.headD size) size) w.stream.length :=
  length_take

theorem receiveFirst_append (thisLen : Nat) (w : Wire) :
    (receiveFirst thisLen w).1 ++ (receiveFirst thisLen w).2.stream = w.stream := by
  rw [receiveFirst]
  split
  · exact serviceReceive_fst_append thisLen w
  · rfl

theorem length_receiveFirst (thisLen : Nat) (w : Wire) :
    (receiveFirst thisLen w).1.length =
      min (min (w.caps.headD thisLen) thisLen) w.stream.length := by
  rw [receiveFirst]
  split
  · exact length_serviceReceive thisLen w
  · have hzero : thisLen = 0 := by omega
    rw [hzero, Nat.min_zero, Nat.zero_min]
    rfl

theorem caps_receiveFirst (thisLen : Nat) (w : Wire) :
    (receiveFirst thisLen w).2.caps = if thisLen > 0 then w.caps.tail else w.caps := by
  rw [receiveFirst]
  split <;> rfl

theorem receiveRest_append (entireLen : Nat) (fuel : Nat) (dump : List UInt8) (last : Nat)
    (w : Wire) :
    (receiveRest entireLen fuel dump last w).1.1 ++ (receiveRest entireLen fuel dump last w).2.stream =
        dump ++ w.stream ∧
      (receiveRest entireLen fuel dump last w).1.1.length ≤ max dump.length entireLen := by
  induction fuel generalizing dump last w with
  | zero => exact ⟨rfl, Nat.le_max_left _ _⟩
  | succ fuel ih =>
    rw [receiveRest]
    split
    · next hlt =>
      simp only
      split
      · next hnil =>
        have hread := serviceReceive_fst_append (entireLen - dump.length) w
        rw [hnil, nil_append] at hread
        exact ⟨congrArg (dump ++ ·) hread, Nat.le_max_left _ _⟩
      · obtain ⟨happend, hle⟩ := ih (dump ++ (serviceReceive (entireLen - dump.length) w).1)
          (serviceReceive (entireLen - dump.length) w).1.length
          (serviceReceive (entireLen - dump.length) w).2
        have hread := length_serviceReceive (entireLen - dump.length) w
        rw [append_assoc, serviceReceive_fst_append] at happend
        rw [length_append] at hle
        exact ⟨happend, by omega⟩
    · exact ⟨rfl, Nat.le_max_left _ _⟩

theorem receiveRest_stream_iff {entireLen fuel : Nat} {dump : List UInt8} {last : Nat} {w : Wire}
    (hlen : dump.length + w.stream.length = entireLen) (hfuel : w.stream.length ≤ fuel) :
    (receiveRest entireLen fuel dump last w).2.stream = [] ↔ Brings w.caps w.stream.length := by
  induction fuel generalizing dump last w with
  | zero =>
    have hnil : w.stream = [] := length_eq_zero_iff.mp (Nat.le_zero.mp hfuel)
    rw [receiveRest, hnil]
    refine iff_of_true rfl ?_
    cases w.caps with
    | nil => exact trivial
    | cons cap caps => exact .inl rfl
  | succ fuel ih =>
    rw [receiveRest]
    by_cases hnil : w.stream = []
    · rw [if_neg (by rw [hnil, length_nil] at hlen; omega), hnil]
      refine iff_of_true rfl ?_
      cases w.caps with
      | nil => exact trivial
      | cons cap caps => exact .inl rfl
    have hpos : 0 < w.stream.length := length_pos_iff.mpr hnil
    have hsize : entireLen - dump.length = w.stream.length := by omega
    rw [if_pos (by omega), hsize]
    obtain ⟨stream, caps⟩ := w
    simp only at hnil hpos hlen hfuel hsize ⊢
    cases caps with
    | nil =>
      have hread : serviceReceive stream.length ⟨stream, []⟩ = (stream, ⟨[], []⟩) := by
        simp [serviceReceive]
      rw [hread, if_neg hnil]
      have hsum : (dump ++ stream).length + 0 = entireLen := by
        rw [length_append]
        omega
      have hnext : (receiveRest entireLen fuel (dump ++ stream) stream.length ⟨[], []⟩).2.stream =
          [] ↔ Brings [] 0 := ih hsum (Nat.zero_le _)
      simpa [Brings] using hnext
    | cons cap caps =>
      by_cases hcap : cap = 0
      · subst hcap
        have hread : serviceReceive stream.length ⟨stream, 0 :: caps⟩ =
            ([], ⟨stream, caps⟩) := by simp [serviceReceive]
        rw [hread, if_pos rfl]
        refine iff_of_false hnil fun h => ?_
        rcases h with h | h
        · omega
        · exact h.1 rfl
      · have hread : serviceReceive stream.length ⟨stream, cap :: caps⟩ =
            (stream.take (min cap stream.length), ⟨stream.drop (min cap stream.length), caps⟩) := rfl
        have htake : (stream.take (min cap stream.length)).length = min cap stream.length := by
          rw [length_take, Nat.min_assoc, Nat.min_self]
        have hne : stream.take (min cap stream.length) ≠ [] := by
          rw [← length_pos_iff, htake]
          omega
        have hrest : (stream.drop (min cap stream.length)).length = stream.length - cap := by
          rw [length_drop]
          omega
        have hsum : (dump ++ stream.take (min cap stream.length)).length +
            (stream.drop (min cap stream.length)).length = entireLen := by
          rw [length_append, htake, length_drop]
          omega
        have hnext : (receiveRest entireLen fuel (dump ++ stream.take (min cap stream.length))
            (stream.take (min cap stream.length)).length
            ⟨stream.drop (min cap stream.length), caps⟩).2.stream = [] ↔
              Brings caps (stream.drop (min cap stream.length)).length :=
          ih hsum (by rw [hrest]; omega)
        rw [hread, if_neg hne, hnext, hrest]
        constructor
        · exact fun h => .inr ⟨hcap, h⟩
        · rintro (h | h)
          · omega
          · exact h.2

theorem afcFinish_iff (operation : Nat) (dump : List UInt8) (last : Nat) :
    ((afcFinish operation dump last).error = AFC_E_SUCCESS →
        (afcFinish operation dump last).bytes.getD [] = dump ∧
          (afcFinish operation dump last).bytesRecv = dump.length) ↔
      ¬ LostStatus operation dump := by
  by_cases hstatus : operation = AFC_OP_STATUS
  · by_cases hparam : param1 dump = AFC_E_SUCCESS
    · have hfinish : afcFinish operation dump last = ⟨AFC_E_SUCCESS, some dump, dump.length⟩ := by
        rw [afcFinish, if_pos hstatus, if_neg (not_not.mpr hparam)]
      rw [hfinish]
      exact iff_of_true (fun _ => ⟨rfl, rfl⟩) fun h => h.2.1 hparam
    · have hfinish : afcFinish operation dump last = ⟨param1 dump % 2 ^ 32, none, last⟩ := by
        rw [afcFinish, if_pos hstatus, if_pos hparam]
      rw [hfinish]
      constructor
      · -- a status is read from eight bytes
        intro h hlost
        have hnil := (h hlost.2.2).1
        rw [Option.getD_none] at hnil
        rw [← hnil] at hlost
        exact absurd hlost.2.2 (by decide)
      · exact fun h hzero => absurd ⟨hstatus, hparam, hzero⟩ h
  · rw [afcFinish, if_neg hstatus]
    refine iff_of_true ?_ fun h => hstatus h.1
    split
    · exact fun _ => ⟨rfl, rfl⟩
    · intro h
      exact absurd h (by decide)

theorem lengthBehindHeader_add (n : Nat) :
    lengthBehindHeader (sizeofAFCPacket + n) = n % 2 ^ 32 := by
  rw [lengthBehindHeader, sizeofAFCPacket]
  omega

/-- **The body of a reply.**  It is taken whole if and only if its length fits and the reads go
well. -/
theorem afcReceiveBody_iff {header : AFCPacket} {body : List UInt8} (caps : List Nat)
    (hentire : header.entireLength = sizeofAFCPacket + body.length) (hbody : body ≠ []) :
    TakenWhole body (afcReceiveBody header ⟨body, caps⟩) ↔
      body.length < 2 ^ 32 ∧ BodyServed header body caps := by
  obtain ⟨t, ht⟩ : ∃ t, lengthBehindHeader header.thisLength = t := ⟨_, rfl⟩
  have ht_lt : t < 2 ^ 32 := ht ▸ Nat.mod_lt _ (by decide)
  have hentireLen : lengthBehindHeader header.entireLength = body.length % 2 ^ 32 := by
    rw [hentire, lengthBehindHeader_add]
  obtain ⟨first, hfirst⟩ : ∃ first, receiveFirst t ⟨body, caps⟩ = first := ⟨_, rfl⟩
  have happend := receiveFirst_append t ⟨body, caps⟩
  have hlength := length_receiveFirst t ⟨body, caps⟩
  have hcaps := caps_receiveFirst t ⟨body, caps⟩
  rw [hfirst] at happend hlength hcaps
  simp only at happend hlength hcaps
  have hsum : first.1.length + first.2.stream.length = body.length := by
    rw [← length_append, happend]
  have hempty : first.2.stream = [] ↔ first.1.length = body.length := by
    rw [← length_eq_zero_iff]
    omega
  have hmod := Nat.mod_le body.length (2 ^ 32)
  have hpos : 0 < body.length := length_pos_iff.mpr hbody
  simp only [afcReceiveBody, BodyServed, ht, hentireLen, hfirst]
  by_cases hover : first.1.length > body.length % 2 ^ 32
  · rw [if_pos hover]
    refine iff_of_false ?_ fun h => ?_
    · rintro ⟨_, _, heq, -⟩
      cases heq
    · rw [Nat.mod_eq_of_lt h.1] at hover
      omega
  rw [if_neg hover]
  by_cases hshort : first.1.length < t
  · -- the first part did not come at once
    rw [if_pos hshort]
    have hwhole : TakenWhole body (.ok (⟨AFC_E_NOT_ENOUGH_DATA, none, first.1.length⟩, first.2)) ↔
        first.1.length = body.length := by
      rw [← hempty]
      constructor
      · rintro ⟨_, _, heq, hnil, -⟩
        cases heq
        exact hnil
      · exact fun hnil => ⟨_, _, rfl, hnil, fun h =>
          absurd h (show AFC_E_NOT_ENOUGH_DATA ≠ AFC_E_SUCCESS by decide)⟩
    rw [hwhole]
    by_cases hlong : body.length < t
    · rw [if_pos hlong]
      have hsame : body.length ≤ caps.headD body.length ↔ body.length ≤ caps.headD t := by
        cases caps with
        | nil => exact iff_of_true (Nat.le_refl _) (Nat.le_of_lt hlong)
        | cons cap caps => exact Iff.rfl
      rw [hsame]
      omega
    · rw [if_neg hlong]
      exact iff_of_false (by omega) fun h => by omega
  -- the first part is there
  rw [if_neg hshort]
  have hfull : first.1.length = t := by omega
  generalize (if t > 0 then first.1.length else sizeofAFCPacket) = last
  obtain ⟨rest, hrest⟩ : ∃ rest, receiveRest (body.length % 2 ^ 32) (body.length % 2 ^ 32) first.1
      last first.2 = rest := ⟨_, rfl⟩
  have hkeep := receiveRest_append (body.length % 2 ^ 32) (body.length % 2 ^ 32) first.1 last first.2
  rw [hrest, happend] at hkeep
  rw [hrest, if_neg (by omega)]
  have hwhole : TakenWhole body (.ok (afcFinish header.operation rest.1.1 rest.1.2, rest.2)) ↔
      rest.2.stream = [] ∧ ¬ LostStatus header.operation body := by
    constructor
    · rintro ⟨_, _, heq, hnil, hsuccess⟩
      cases heq
      have hall := hkeep.1
      rw [hnil, append_nil] at hall
      rw [← hall] at hsuccess ⊢
      exact ⟨hnil, (afcFinish_iff _ _ _).mp hsuccess⟩
    · rintro ⟨hnil, hlost⟩
      have hall := hkeep.1
      rw [hnil, append_nil] at hall
      rw [← hall] at hlost ⊢
      exact ⟨_, _, rfl, hnil, (afcFinish_iff _ _ _).mpr hlost⟩
  rw [hwhole]
  by_cases hbig : body.length < 2 ^ 32
  · have hexact : body.length % 2 ^ 32 = body.length := Nat.mod_eq_of_lt hbig
    rw [hexact] at hrest
    have hleft : first.2.stream.length = body.length - t := by omega
    have hstream : rest.2.stream = [] ↔ Brings first.2.caps first.2.stream.length := by
      rw [← hrest]
      exact receiveRest_stream_iff hsum (by omega)
    rw [hcaps, hleft] at hstream
    rw [hstream]
    have hcap : t ≤ caps.headD t := by omega
    exact ⟨fun h => ⟨hbig, hcap, h⟩, fun h => h.2.2⟩
  · -- not more bytes are read than a `uint32_t` can count
    have hlen := congrArg List.length hkeep.1
    have hle := hkeep.2
    rw [length_append] at hlen
    have hlt := Nat.mod_lt body.length (show 2 ^ 32 > 0 by decide)
    refine iff_of_false (fun h => ?_) fun h => hbig h.1
    rw [h.1, length_nil] at hlen
    omega

theorem afcReceiveBody_empty (header : AFCPacket) (caps : List Nat)
    (hentire : header.entireLength = sizeofAFCPacket) :
    TakenWhole [] (afcReceiveBody header ⟨[], caps⟩) := by
  have hlen : lengthBehindHeader header.entireLength = 0 := by
    rw [hentire]
    exact (lengthBehindHeader_add 0).trans (Nat.zero_mod _)
  obtain ⟨thisLen, hthis⟩ : ∃ thisLen, lengthBehindHeader header.thisLength = thisLen := ⟨_, rfl⟩
  have happend : (receiveFirst thisLen ⟨[], caps⟩).1 ++ (receiveFirst thisLen ⟨[], caps⟩).2.stream =
      [] := receiveFirst_append thisLen ⟨[], caps⟩
  obtain ⟨hfirst, hrest⟩ := append_eq_nil_iff.mp happend
  simp only [afcReceiveBody, hlen, hthis, hfirst, length_nil]
  rw [if_neg (Nat.lt_irrefl 0)]
  by_cases hpos : 0 < thisLen
  · rw [if_pos hpos]
    refine ⟨_, _, rfl, hrest, fun h => ?_⟩
    exact absurd h (show AFC_E_NOT_ENOUGH_DATA ≠ AFC_E_SUCCESS by decide)
  · rw [if_neg hpos]
    have hlost : ¬ LostStatus header.operation [] := fun h => absurd h.2.2 (by decide)
    exact ⟨_, _, rfl, hrest, (afcFinish_iff _ _ _).mpr hlost⟩

/-- **One reply.**  `afc_receive_data` takes it whole if and only if it is served. -/
theorem afcReceiveData_iff (packetNum : Nat) (reply : AfcReply) (caps : List Nat) :
    TakenWhole reply.body (afcReceiveData packetNum ⟨reply.bytes, caps⟩) ↔
      ReplyServed packetNum reply caps := by
  have hhead := AFCPacket.length_toLE reply.fits
  have hentire := reply.entireLength_eq
  -- an answer that leaves the body where it is
  have hleave : ∀ (result : AfcResult) (caps' : List Nat), result.error ≠ AFC_E_SUCCESS →
      (TakenWhole reply.body (.ok (result, ⟨reply.body, caps'⟩)) ↔ reply.body = []) := by
    intro result caps' herror
    constructor
    · rintro ⟨_, _, heq, hnil, -⟩
      cases heq
      exact hnil
    · exact fun hnil => ⟨_, _, rfl, hnil, fun h => absurd h herror⟩
  simp only [afcReceiveData, ReplyServed]
  by_cases hcap : sizeofAFCPacket ≤ caps.headD sizeofAFCPacket
  · have hread : serviceReceive sizeofAFCPacket ⟨reply.bytes, caps⟩ =
        (reply.header.toLE, ⟨reply.body, caps.tail⟩) := by
      simp only [serviceReceive, AfcReply.bytes]
      rw [Nat.min_eq_right hcap, take_left' hhead, drop_left' hhead]
    have hfrom : AFCPacket.fromLE reply.header.toLE = reply.header := by
      have hall := AFCPacket.fromLE_toLE reply.fits []
      rwa [append_nil] at hall
    rw [hread]
    simp only [hfrom]
    rw [if_neg (by omega)]
    by_cases hnum : reply.header.packetNum = packetNum
    · rw [if_neg (not_not.mpr hnum)]
      by_cases hthis : reply.header.thisLength < sizeofAFCPacket
      · rw [if_pos hthis, hleave _ _ (by decide)]
        refine ⟨fun h => ⟨hcap, .inl h⟩, fun h => ?_⟩
        rcases h.2 with hnil | hserved
        · exact hnil
        · omega
      · rw [if_neg hthis]
        by_cases hempty : reply.body = []
        · refine iff_of_true ?_ ⟨hcap, .inl hempty⟩
          rw [hempty, length_nil, Nat.add_zero] at hentire
          by_cases hsame : reply.header.thisLength = reply.header.entireLength ∧
              reply.header.entireLength = sizeofAFCPacket
          · rw [if_pos hsame, hempty]
            exact ⟨_, _, rfl, rfl, fun _ => ⟨rfl, rfl⟩⟩
          · rw [if_neg hsame, hempty]
            exact afcReceiveBody_empty reply.header caps.tail hentire
        · have hlong : ¬ (reply.header.thisLength = reply.header.entireLength ∧
              reply.header.entireLength = sizeofAFCPacket) := by
            have hpos := length_pos_iff.mpr hempty
            omega
          rw [if_neg hlong, afcReceiveBody_iff _ hentire hempty]
          constructor
          · exact fun h => ⟨hcap, .inr ⟨hnum, Nat.le_of_not_lt hthis, h⟩⟩
          · rintro ⟨-, hnil | ⟨-, -, hserved⟩⟩
            · exact absurd hnil hempty
            · exact hserved
    · rw [if_pos hnum, hleave _ _ (by decide)]
      refine ⟨fun h => ⟨hcap, .inl h⟩, fun h => ?_⟩
      rcases h.2 with hnil | hserved
      · exact hnil
      · exact absurd hserved.1 hnum
  · -- part of the header is left
    have hlen := length_serviceReceive sizeofAFCPacket ⟨reply.bytes, caps⟩
    have happend := serviceReceive_fst_append sizeofAFCPacket ⟨reply.bytes, caps⟩
    have hsum := congrArg List.length happend
    simp only [AfcReply.bytes, length_append] at hsum hlen
    rw [if_pos (by simp only [AfcReply.bytes]; omega)]
    refine iff_of_false ?_ fun h => hcap h.1
    rintro ⟨_, _, heq, hnil, -⟩
    cases heq
    simp only [AfcReply.bytes] at hnil
    rw [hnil, length_nil] at hsum
    omega

/-! ## Operations -/

/-- Nothing is under way. -/
def Afc.Idle (s : Afc) : Prop := s.toDevice = [] ∧ s.fromDevice = []

section Operation

variable {s : Afc} {c : AfcCall}

theorem Afc.Synchronised.idle {s' : Afc} (h : s.Synchronised c) (hstep : s.step c = .ok s') :
    s'.Idle := by
  obtain ⟨result, w, hreceive, hnil, -⟩ := h.takenWhole
  rw [step, call, hreceive] at hstep
  cases hstep
  exact ⟨congrArg Prod.snd h.answered, hnil⟩

/-- **One operation.** -/
theorem Afc.synchronised_iff_served (hs : s.Idle) : s.Synchronised c ↔ s.Served c := by
  have hsent : s.taken c = ([c.request.bytes s.nextNum], []) ↔ c.SentWhole := by
    rw [taken, hs.1, nil_append]
    exact devicePackets_dispatch_iff s.nextNum_lt _ rfl
  have hpending : c.SentWhole → s.pending c = (s.reply c).bytes := by
    intro hwhole
    rw [pending, hs.2, hsent.mpr hwhole, nil_append, flatMap_singleton]
    rfl
  constructor
  · intro h
    have hwhole := hsent.mp h.answered
    have htaken := h.takenWhole
    rw [hpending hwhole] at htaken
    exact ⟨hwhole, (afcReceiveData_iff _ _ _).mp htaken⟩
  · rintro ⟨hwhole, hserved⟩
    refine ⟨hsent.mpr hwhole, hs.2, ?_⟩
    rw [hpending hwhole]
    exact (afcReceiveData_iff _ _ _).mpr hserved

end Operation

theorem Afc.along_iff {s : Afc} (hs : s.Idle) (calls : List AfcCall) :
    Along step Synchronised s calls ↔ Along step Served s calls := by
  induction calls generalizing s with
  | nil => exact Iff.rfl
  | cons c calls ih =>
    rw [Along, Along, synchronised_iff_served hs]
    constructor
    · rintro ⟨hserved, hrest⟩
      exact ⟨hserved, fun s' hstep =>
        (ih ((synchronised_iff_served hs).mpr hserved |>.idle hstep)).mp (hrest s' hstep)⟩
    · rintro ⟨hserved, hrest⟩
      exact ⟨hserved, fun s' hstep =>
        (ih ((synchronised_iff_served hs).mpr hserved |>.idle hstep)).mpr (hrest s' hstep)⟩

/-- **Synchronisation.**  In a run of operations of a new client every reply is taken whole, by the
operation whose request it answers, and every success comes with all its bytes, if and only if
every operation of the run is served. -/
theorem synchronised_iff (calls : List AfcCall) :
    Along Afc.step Afc.Synchronised .new calls ↔ Along Afc.step Afc.Served .new calls :=
  Afc.along_iff ⟨rfl, rfl⟩ calls

/-! ## Lost replies -/

/-- `AFC_OP_READ_DIR` for `/`. -/
def readDir : AfcRequest where
  operation := 3
  data := [0x2f, 0]
  payload := []
  operation_lt := by decide
  data_lt := by decide
  payload_lt := by decide

/-- The listing of an empty directory, with the first part being `.` and the rest `..`. -/
def listing : AfcReply where
  header := ⟨afcMagic, 45, 42, 1, AFC_OP_DATA⟩
  body := [0x2e, 0, 0x2e, 0x2e, 0]
  fits := ⟨by decide, by decide, by decide, by decide, by decide⟩
  entireLength_eq := by decide

/-- The directory is listed, with reads that are cut. -/
def listCall (reads : List Nat) : AfcCall := ⟨readDir, fun _ => listing, ⟨40, 2, 0⟩, reads⟩

/-- The header comes in two pieces, of 39 bytes and of one: the operation fails, and the rest of
its reply is in the way of the next one.  And a read that runs into the timeout ends a
listing early, which is a success none the less. -/
theorem afc_desynchronised :
    (¬ Along Afc.step Afc.Synchronised .new [listCall [39]]) ∧
      ¬ Along Afc.step Afc.Synchronised .new [listCall [40, 2, 0]] ∧
      ((Afc.call .new (listCall [40, 2, 0])).toOption.map fun r => (r.1.error, r.1.bytes)) =
        some (AFC_E_SUCCESS, some [0x2e, 0]) := by
  refine ⟨fun h => ?_, fun h => ?_, ?_⟩
  · have hserved := (Afc.synchronised_iff_served ⟨rfl, rfl⟩).mp h.1
    exact absurd hserved.2.1 (by decide)
  · have hserved := (Afc.synchronised_iff_served ⟨rfl, rfl⟩).mp h.1
    have hreply : listing.body = [] ∨ (listing.header.packetNum = 1 ∧
        sizeofAFCPacket ≤ listing.header.thisLength ∧ listing.body.length < 2 ^ 32 ∧
          BodyServed listing.header listing.body [2, 0]) := hserved.2.2
    rcases hreply with hnil | ⟨-, -, -, hbody⟩
    · cases hnil
    · have hthis : lengthBehindHeader listing.header.thisLength = 2 := by decide
      simp only [BodyServed, hthis] at hbody
      rw [if_neg (by decide)] at hbody
      -- behind the first part three bytes are missing, and the read brings none
      have hbrings : Brings [0] 3 := hbody.2.1
      rcases hbrings with hzero | hcap
      · cases hzero
      · exact hcap.1 rfl
  · decide +kernel

end IDeviceStack.Libimobiledevice
