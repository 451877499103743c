/-
# `Libimobiledevice.Debugserver` — packets of the remote debugging protocol

`debugserver.c`: a packet is `$`, the payload, `#` and two hex digits of a checksum.
`debugserver_format_command` builds one, and `debugserver_client_receive_response` reads
one byte after the other and strips it.

* A `char` is signed, and the checksum is a `uint32_t`: every byte is extended with its
  sign and added.
* A string is the bytes in front of its `NUL`.  Lengths are `uint32_t` and wrap; a
  buffer that is left is `none`, or `outside`.
* `input` is what the receive calls bring: a byte, or nothing within the timeout.  When it
  is at its end the device is silent.

**Proved here.**  `receiveResponse_formatCommand`, `replaced_accepted`.
-/
import IDeviceStack.Lib.Endian

namespace IDeviceStack.Libimobiledevice

open List

/-- `DEBUGSERVER_CHECKSUM_HASH_LENGTH`. -/
def checksumHashLength : Nat := 3

def charDollar : UInt8 := 0x24
def charHash : UInt8 := 0x23
def charPlus : UInt8 := 0x2B
def charMinus : UInt8 := 0x2D

/-! ## Hex digits and the checksum -/

/-- `debugserver_hex2int`, as the `unsigned` it is compared as. -/
def debugserverHex2int (c : UInt8) : BitVec 32 :=
  if 0x30 ≤ c ∧ c ≤ 0x39 then BitVec.ofNat 32 (c.toNat - 0x30)
  else if 0x61 ≤ c ∧ c ≤ 0x66 then BitVec.ofNat 32 (10 + c.toNat - 0x61)
  else if 0x41 ≤ c ∧ c ≤ 0x46 then BitVec.ofNat 32 (10 + c.toNat - 0x41)
  else c.toBitVec.signExtend 32

def debugserverInt2hex (x : Nat) : UInt8 :=
  UInt8.ofNat (if x < 10 then 0x30 + x else 0x41 + (x - 10))

/-- `DEBUGSERVER_HEX_ENCODE_FIRST_BYTE` and `DEBUGSERVER_HEX_ENCODE_SECOND_BYTE`. -/
def hexEncodeFirst (byte : Nat) : UInt8 := debugserverInt2hex (byte >>> 4 % 16)
def hexEncodeSecond (byte : Nat) : UInt8 := debugserverInt2hex (byte % 16)

def debugserverGetChecksumForBuffer (buffer : List UInt8) : BitVec 32 :=
  buffer.foldl (fun checksum b => checksum + b.toBitVec.signExtend 32) 0

/-! ## Building a packet -/

/-- The loop of `debugserver_encode_string`. -/
def encodeLoop (encodedLength : Nat) : Nat → List UInt8 → Option (List UInt8)
  | _, [] => some []
  | index, ch :: rest =>
    if index * 2 % 2 ^ 32 + 1 < encodedLength then
      (encodeLoop encodedLength (index + 1) rest).map fun encoded =>
        hexEncodeFirst ch.toNat :: hexEncodeSecond ch.toNat :: encoded
    else none

def debugserverEncodeString (buffer : List UInt8) : Option (List UInt8) :=
  let length := buffer.length % 2 ^ 32
  encodeLoop ((2 * length + checksumHashLength + 1) % 2 ^ 32) 0 (buffer.take length)

/-- No arguments are an empty string. -/
def encodeArguments : Option (List UInt8) → Option (List UInt8)
  | some arguments => debugserverEncodeString arguments
  | none => some []

def checksumHash (encodedCommand : List UInt8) (calculateChecksum : Bool) : List UInt8 :=
  if calculateChecksum then
    let encodedLength := encodedCommand.length % 2 ^ 32
    let checksum := debugserverGetChecksumForBuffer (encodedCommand.take encodedLength)
    [charHash, hexEncodeFirst checksum.toNat, hexEncodeSecond checksum.toNat]
  else [charHash, 0x30, 0x30]

/-- `debugserver_format_command`: the buffer and its size. -/
def debugserverFormatCommand (pfx command : List UInt8) (arguments : Option (List UInt8))
    (calculateChecksum : Bool) : Option (List UInt8 × Nat) :=
  (encodeArguments arguments).map fun encoded =>
    let encodedCommand := command ++ encoded
    (pfx ++ encodedCommand ++ checksumHash encodedCommand calculateChecksum,
      (pfx.length + encodedCommand.length + checksumHashLength) % 2 ^ 32)

/-! ## Reading a packet -/

/-- The bytes of a buffer, with the `NUL` at its end. -/
def readBytes (buffer : List UInt8) (offset n : Nat) : Option (List UInt8) :=
  if offset + n ≤ buffer.length + 1 then some (((buffer ++ [0]).drop offset).take n) else none

/-- The size without the prefix and the checksum. -/
def responseSize (size : Nat) : Nat := (size + 2 ^ 32 - checksumHashLength - 1) % 2 ^ 32

/-- The checksum of a response, without its prefix and its own checksum. -/
def responseChecksum (response : List UInt8) (size : Nat) : Option (BitVec 32) :=
  if responseSize size > 0 then
    (readBytes response 1 (responseSize size)).map debugserverGetChecksumForBuffer
  else some 0

/-- One `char` of a buffer, or the `NUL` at its end. -/
def charAt (buffer : List UInt8) (offset : Nat) : Option UInt8 := (buffer ++ [0])[offset]?

/-- The second digit is looked at only where the first one is right. -/
def debugserverResponseIsChecksumValid (response : List UInt8) (size : Nat) : Option Bool := do
  let checksum ← responseChecksum response size
  let first ← charAt response ((size + 2 ^ 32 - 2) % 2 ^ 32)
  if debugserverHex2int first ≠ (checksum >>> 4) &&& 0xf#32 then some false
  else
    let second ← charAt response ((size + 2 ^ 32 - 1) % 2 ^ 32)
    some (debugserverHex2int second = checksum &&& 0xf#32)

structure DebugserverClient where
  noackMode : Bool
  /-- What the receive calls to come will bring. -/
  input : List (Option UInt8)
  /-- What was sent. -/
  sent : List UInt8

/-- `debugserver_client_receive_internal_check`: whether the byte is the expected one, and the
byte. -/
def receiveInternalCheck (expected : UInt8) (got : Option UInt8) : Bool × UInt8 :=
  match got with
  | some b => if expected ≠ 0 ∧ b = expected then (true, expected) else (false, b)
  | none => (false, 0)

/-- `string_concat`, with a string of one byte or none. -/
def appendChar (buffer : List UInt8) (ch : UInt8) : List UInt8 :=
  if ch = 0 then buffer else buffer ++ [ch]

/-- The loop that reads up to the checksum: the buffer, its size and the input that is left.  A
device that is silent before the `#` keeps it going. -/
def receiveLoop (buffer : List UInt8) (size checksumLength : Nat) (receivingChecksum : Bool) :
    List (Option UInt8) → Option (List UInt8 × Nat × List (Option UInt8))
  | [] =>
    if checksumLength = 0 then some (buffer, size, [])
    else if receivingChecksum then some (buffer, (size + checksumLength) % 2 ^ 32, [])
    else none
  | got :: input =>
    if checksumLength = 0 then some (buffer, size, got :: input)
    else
      let r := receiveInternalCheck charHash got
      let receivingChecksum := receivingChecksum || r.1
      receiveLoop (appendChar buffer r.2) ((size + 1) % 2 ^ 32)
        (if receivingChecksum then checksumLength - 1 else checksumLength)
        receivingChecksum input

inductive Received where
  /-- `DEBUGSERVER_E_SUCCESS` and a response. -/
  | response (s : List UInt8)
  /-- `DEBUGSERVER_E_SUCCESS` and no response. -/
  | nothing
  /-- `DEBUGSERVER_E_RESPONSE_ERROR`. -/
  | responseError
  /-- The call does not return. -/
  | spins
  /-- A byte outside of the buffer was read. -/
  | outside
  deriving DecidableEq, Repr

/-- The first byte, taken off the input. -/
def DebugserverClient.next (client : DebugserverClient) : Option UInt8 × DebugserverClient :=
  (client.input.headD none, { client with input := client.input.tail })

/-- `debugserver_client_send_ack` and `debugserver_client_send_noack`, in ack mode only. -/
def DebugserverClient.sendAck (client : DebugserverClient) (ack : UInt8) : DebugserverClient :=
  { client with sent := if client.noackMode then client.sent else client.sent ++ [ack] }

/-- What is returned for a verdict on the checksum and the bytes in front of it. -/
def answerResponse (client : DebugserverClient) :
    Option Bool → Option (List UInt8) → Received × DebugserverClient
  | some true, some response => (.response response, client.sendAck charPlus)
  | some false, _ => (.responseError, client.sendAck charMinus)
  | _, _ => (.outside, client)

/-- The end of `debugserver_client_receive_response`, with the buffer and its size. -/
def judgeResponse (client : DebugserverClient) (buffer : List UInt8) (size : Nat) :
    Received × DebugserverClient :=
  answerResponse client (debugserverResponseIsChecksumValid buffer size)
    (readBytes buffer 1 (responseSize size))

/-- The response, from the prefix on. -/
def receivePacket (client : DebugserverClient) : Received × DebugserverClient :=
  match receiveLoop [charDollar] 1 checksumHashLength false client.input with
  | none => (.spins, client)
  | some (buffer, size, input) => judgeResponse { client with input := input } buffer size

/-- The prefix, and what follows it. -/
def receivePrefixed (client : DebugserverClient) : Received × DebugserverClient :=
  let (got, client) := client.next
  if (receiveInternalCheck charDollar got).1 then receivePacket client else (.nothing, client)

def debugserverClientReceiveResponse (client : DebugserverClient) :
    Received × DebugserverClient :=
  if client.noackMode then receivePrefixed client
  else
    let (got, client) := client.next
    let r := receiveInternalCheck charPlus got
    if r.2 = charDollar then receivePacket client
    else if r.1 then receivePrefixed client
    else (.nothing, client)

/-! ## Digits -/

theorem hex2int_int2hex {x : Nat} (h : x < 16) :
    debugserverHex2int (debugserverInt2hex x) = BitVec.ofNat 32 x := by
  revert x
  decide

theorem int2hex_ne {x : Nat} (h : x < 16) :
    debugserverInt2hex x ≠ 0 ∧ debugserverInt2hex x ≠ charHash := by
  revert x
  decide

theorem nibbles (c : BitVec 32) :
    (c >>> 4) &&& 0xf#32 = BitVec.ofNat 32 (c.toNat >>> 4 % 16) ∧
      c &&& 0xf#32 = BitVec.ofNat 32 (c.toNat % 16) := by
  have hmask : ∀ n : Nat, n &&& 15 = n % 16 := fun n => Nat.and_two_pow_sub_one_eq_mod n 4
  have hofNat : ∀ n : Nat, (BitVec.ofNat 32 (n % 16)).toNat = n % 16 := by
    intro n
    rw [BitVec.toNat_ofNat]
    omega
  constructor
  · apply BitVec.eq_of_toNat_eq
    rw [hofNat, BitVec.toNat_and, BitVec.toNat_ushiftRight]
    exact hmask _
  · apply BitVec.eq_of_toNat_eq
    rw [hofNat, BitVec.toNat_and]
    exact hmask _

/-! ## The checksum -/

theorem checksum_mod (buffer : List UInt8) :
    (debugserverGetChecksumForBuffer buffer).toNat % 256 = (buffer.map UInt8.toNat).sum % 256 := by
  have hbyte : ∀ b : UInt8, (b.toBitVec.signExtend 32).toNat % 256 = b.toNat := by
    intro b
    rw [BitVec.toNat_signExtend, BitVec.toNat_setWidth, UInt8.toNat_toBitVec]
    have hb := b.toNat_lt
    split <;> omega
  have hfold : ∀ (c : BitVec 32) (buffer : List UInt8),
      (buffer.foldl (fun checksum b => checksum + b.toBitVec.signExtend 32) c).toNat % 256 =
        (c.toNat + (buffer.map UInt8.toNat).sum) % 256 := by
    intro c buffer
    induction buffer generalizing c with
    | nil => rfl
    | cons b buffer ih =>
      rw [foldl_cons, ih, map_cons, sum_cons, BitVec.toNat_add]
      have := hbyte b
      omega
  have h := hfold 0 buffer
  rw [show (0 : BitVec 32).toNat = 0 from rfl, Nat.zero_add] at h
  exact h

theorem digit_inj {x y : Nat} (hx : x < 16) (hy : y < 16) :
    BitVec.ofNat 32 x = BitVec.ofNat 32 y ↔ x = y := by
  refine ⟨fun h => ?_, congrArg _⟩
  have hnat := congrArg BitVec.toNat h
  rw [BitVec.toNat_ofNat, BitVec.toNat_ofNat] at hnat
  omega

theorem digits_eq_iff (c c' : BitVec 32) :
    (debugserverHex2int (hexEncodeFirst c'.toNat) = (c >>> 4) &&& 0xf#32 ∧
      debugserverHex2int (hexEncodeSecond c'.toNat) = c &&& 0xf#32) ↔
      c'.toNat % 256 = c.toNat % 256 := by
  have hshift : ∀ n : Nat, n >>> 4 = n / 16 := fun n => Nat.shiftRight_eq_div_pow n 4
  obtain ⟨hfirst, hsecond⟩ := nibbles c
  rw [hfirst, hsecond, hexEncodeFirst, hexEncodeSecond, hex2int_int2hex (by omega),
    hex2int_int2hex (by omega), digit_inj (by omega) (by omega), digit_inj (by omega) (by omega),
    hshift, hshift]
  omega

/-! ## What is read of a packet -/

theorem receiveLoop_payload (payload : List UInt8) (h0 : 0 ∉ payload) (hhash : charHash ∉ payload)
    (buffer : List UInt8) (size : Nat) (input : List (Option UInt8))
    (hsize : size + payload.length < 2 ^ 32) :
    receiveLoop buffer size checksumHashLength false (payload.map some ++ input) =
      receiveLoop (buffer ++ payload) (size + payload.length) checksumHashLength false input := by
  induction payload generalizing buffer size with
  | nil => rw [map_nil, nil_append, append_nil, length_nil, Nat.add_zero]
  | cons b payload ih =>
    rw [mem_cons, not_or] at h0 hhash
    rw [length_cons] at hsize
    have hcheck : receiveInternalCheck charHash (some b) = (false, b) :=
      if_neg fun h => hhash.1 h.2.symm
    have happend : appendChar buffer b = buffer ++ [b] := if_neg fun h => h0.1 h.symm
    rw [map_cons, cons_append, receiveLoop, if_neg (by decide), hcheck]
    dsimp only
    rw [Bool.or_self, if_neg Bool.false_ne_true, happend, Nat.mod_eq_of_lt (by omega),
      ih h0.2 hhash.2 _ _ (by omega), append_assoc, length_cons]
    congr 1
    omega

theorem receiveLoop_checksum {d1 d2 : UInt8} (h1 : d1 ≠ 0) (h2 : d2 ≠ 0) (buffer : List UInt8)
    (size : Nat) (later : List (Option UInt8)) (hsize : size + 3 < 2 ^ 32) :
    receiveLoop buffer size checksumHashLength false
        (some charHash :: some d1 :: some d2 :: later) =
      some (buffer ++ [charHash, d1, d2], size + 3, later) := by
  have hhash : receiveInternalCheck charHash (some charHash) = (true, charHash) := rfl
  have happend : ∀ (buffer : List UInt8) (d : UInt8), d ≠ 0 →
      appendChar buffer (receiveInternalCheck charHash (some d)).2 = buffer ++ [d] := by
    intro buffer d hd
    rw [receiveInternalCheck]
    split
    · next heq =>
        rw [← heq.2]
        exact if_neg hd
    · exact if_neg hd
  have hlast : ∀ buffer size, receiveLoop buffer size 0 true later = some (buffer, size, later) := by
    intro buffer size
    cases later with
    | nil => exact if_pos rfl
    | cons got later => exact if_pos rfl
  have hdigit : ∀ (buffer : List UInt8) (size n : Nat) (d : UInt8) (input : List (Option UInt8)),
      d ≠ 0 → size + 1 < 2 ^ 32 →
      receiveLoop buffer size (n + 1) true (some d :: input) =
        receiveLoop (buffer ++ [d]) (size + 1) n true input := by
    intro buffer size n d input hd hlt
    rw [receiveLoop, if_neg (Nat.succ_ne_zero n)]
    dsimp only
    rw [Bool.true_or, if_pos rfl, happend buffer d hd, Nat.mod_eq_of_lt hlt, Nat.add_sub_cancel]
  have hstart : receiveLoop buffer size checksumHashLength false
      (some charHash :: some d1 :: some d2 :: later) =
      receiveLoop (buffer ++ [charHash]) (size + 1) 2 true (some d1 :: some d2 :: later) := by
    rw [receiveLoop, if_neg (by decide)]
    dsimp only
    rw [hhash, Bool.false_or, if_pos rfl, Nat.mod_eq_of_lt (by omega)]
    rfl
  rw [hstart, hdigit _ _ _ _ _ h1 (by omega), hdigit _ _ _ _ _ h2 (by omega), hlast,
    append_assoc, append_assoc]
  rfl

/-! ## A packet, read and judged -/

/-- A packet with a payload and two digits. -/
def packetOf (payload digits : List UInt8) : List UInt8 :=
  charDollar :: (payload ++ charHash :: digits)

section Packet

variable {payload : List UInt8} {c : BitVec 32}

/-- The digits that stand for a checksum. -/
def digitsOf (c : BitVec 32) : List UInt8 := [hexEncodeFirst c.toNat, hexEncodeSecond c.toNat]

theorem digitsOf_ne (c : BitVec 32) : hexEncodeFirst c.toNat ≠ 0 ∧ hexEncodeSecond c.toNat ≠ 0 :=
  ⟨(int2hex_ne (by omega)).1, (int2hex_ne (by omega)).1⟩

theorem receiveLoop_packet (h0 : 0 ∉ payload) (hhash : charHash ∉ payload)
    (hlen : payload.length + 4 < 2 ^ 32) (later : List (Option UInt8)) :
    receiveLoop [charDollar] 1 checksumHashLength false
        ((payload ++ charHash :: digitsOf c).map some ++ later) =
      some (packetOf payload (digitsOf c), payload.length + 4, later) := by
  obtain ⟨h1, h2⟩ := digitsOf_ne c
  rw [map_append, append_assoc, receiveLoop_payload payload h0 hhash _ _ _ (by omega)]
  have hrest := receiveLoop_checksum h1 h2 ([charDollar] ++ payload) (1 + payload.length) later
    (by omega)
  refine Eq.trans hrest ?_
  rw [show 1 + payload.length + 3 = payload.length + 4 by omega, append_assoc]
  rfl

theorem readBytes_payload (digits : List UInt8) :
    readBytes (packetOf payload digits) 1 payload.length = some payload := by
  rw [readBytes, if_pos (by simp [packetOf]; omega)]
  simp [packetOf]

theorem charAt_digits (payload : List UInt8) (d₁ d₂ : UInt8) :
    charAt (packetOf payload [d₁, d₂]) (payload.length + 2) = some d₁ ∧
      charAt (packetOf payload [d₁, d₂]) (payload.length + 3) = some d₂ := by
  have hsplit : packetOf payload [d₁, d₂] ++ [0] =
      (charDollar :: (payload ++ [charHash])) ++ [d₁, d₂, 0] := by simp [packetOf]
  constructor
  · rw [charAt, hsplit, getElem?_append_right (by simp)]
    simp
  · rw [charAt, hsplit, getElem?_append_right (by simp)]
    simp

/-- The verdict where the checksum and both digits are inside of the buffer. -/
theorem isChecksumValid_of_digits {response : List UInt8} {size : Nat} {checksum : BitVec 32}
    {d₁ d₂ : UInt8} (hsum : responseChecksum response size = some checksum)
    (hfirst : charAt response ((size + 2 ^ 32 - 2) % 2 ^ 32) = some d₁)
    (hsecond : charAt response ((size + 2 ^ 32 - 1) % 2 ^ 32) = some d₂) :
    debugserverResponseIsChecksumValid response size =
      some (decide (debugserverHex2int d₁ = (checksum >>> 4) &&& 0xf#32 ∧
        debugserverHex2int d₂ = checksum &&& 0xf#32)) := by
  simp only [debugserverResponseIsChecksumValid, hsum, hfirst, hsecond, Option.bind_eq_bind,
    Option.bind_some]
  by_cases h : debugserverHex2int d₁ = (checksum >>> 4) &&& 0xf#32
  · rw [if_neg (not_not.2 h)]
    simp only [h, true_and]
  · rw [if_pos h]
    simp only [h, false_and, decide_false]

theorem responseSize_packet (hlen : payload.length + 4 < 2 ^ 32) :
    responseSize (payload.length + 4) = payload.length := by
  simp only [responseSize, checksumHashLength]
  omega

theorem responseChecksum_packet (hlen : payload.length + 4 < 2 ^ 32) (digits : List UInt8) :
    responseChecksum (packetOf payload digits) (payload.length + 4) =
      some (debugserverGetChecksumForBuffer payload) := by
  rw [responseChecksum, responseSize_packet hlen, readBytes_payload]
  cases payload with
  | nil => rfl
  | cons b payload => rfl

theorem isChecksumValid_packet (hlen : payload.length + 4 < 2 ^ 32) :
    debugserverResponseIsChecksumValid (packetOf payload (digitsOf c)) (payload.length + 4) =
      some (decide (c.toNat % 256 = (debugserverGetChecksumForBuffer payload).toNat % 256)) := by
  have hd1 : (payload.length + 4 + 2 ^ 32 - 2) % 2 ^ 32 = payload.length + 2 := by omega
  have hd2 : (payload.length + 4 + 2 ^ 32 - 1) % 2 ^ 32 = payload.length + 3 := by omega
  obtain ⟨hfirst, hsecond⟩ := charAt_digits payload (hexEncodeFirst c.toNat)
    (hexEncodeSecond c.toNat)
  rw [digitsOf, isChecksumValid_of_digits (responseChecksum_packet hlen _) (hd1 ▸ hfirst)
    (hd2 ▸ hsecond)]
  refine congrArg some ?_
  rw [decide_eq_decide]
  exact digits_eq_iff (debugserverGetChecksumForBuffer payload) c

end Packet

/-! ## Receiving a packet -/

/-- The client once a response is read: without acks nothing is sent. -/
def DebugserverClient.answered (client : DebugserverClient) (later : List (Option UInt8))
    (ack : UInt8) : DebugserverClient :=
  { client with input := later }.sendAck ack

/-- The three ways in which a packet may arrive. -/
inductive Arrives (client : DebugserverClient) (packet : List UInt8)
    (later : List (Option UInt8)) : Prop where
  | noack (hmode : client.noackMode = true) (hinput : client.input = packet.map some ++ later)
  | plus (hmode : client.noackMode = false)
      (hinput : client.input = some charPlus :: packet.map some ++ later)
  | bare (hmode : client.noackMode = false) (hinput : client.input = packet.map some ++ later)

section Receive

variable {payload : List UInt8} {c : BitVec 32} {later : List (Option UInt8)}
  {client : DebugserverClient}

theorem receivePrefixed_dollar {rest : List (Option UInt8)}
    (hinput : client.input = some charDollar :: rest) :
    receivePrefixed client = receivePacket { client with input := rest } := by
  rw [receivePrefixed, DebugserverClient.next, hinput]
  exact if_pos rfl

theorem Arrives.receiveResponse {packet : List UInt8}
    (harrives : Arrives client (charDollar :: packet) later) :
    debugserverClientReceiveResponse client =
      receivePacket { client with input := packet.map some ++ later } := by
  cases harrives with
  | noack hmode hinput =>
    rw [debugserverClientReceiveResponse, if_pos hmode]
    exact receivePrefixed_dollar hinput
  | plus hmode hinput =>
    rw [debugserverClientReceiveResponse, if_neg (by rw [hmode]; exact Bool.false_ne_true),
      DebugserverClient.next, hinput]
    dsimp only [cons_append, headD_cons, tail_cons]
    rw [if_neg (by decide)]
    exact (if_pos rfl).trans (receivePrefixed_dollar rfl)
  | bare hmode hinput =>
    rw [debugserverClientReceiveResponse, if_neg (by rw [hmode]; exact Bool.false_ne_true),
      DebugserverClient.next, hinput]
    exact if_pos rfl

theorem judgeResponse_packet (hlen : payload.length + 4 < 2 ^ 32) :
    judgeResponse client (packetOf payload (digitsOf c)) (payload.length + 4) =
      if c.toNat % 256 = (debugserverGetChecksumForBuffer payload).toNat % 256 then
        (.response payload, client.sendAck charPlus)
      else (.responseError, client.sendAck charMinus) := by
  rw [judgeResponse, isChecksumValid_packet hlen, responseSize_packet hlen, readBytes_payload]
  by_cases hsum : c.toNat % 256 = (debugserverGetChecksumForBuffer payload).toNat % 256
  · rw [decide_eq_true hsum, if_pos hsum]
    rfl
  · rw [decide_eq_false hsum, if_neg hsum]
    rfl

theorem receivePacket_packet (h0 : 0 ∉ payload) (hhash : charHash ∉ payload)
    (hlen : payload.length + 4 < 2 ^ 32)
    (hinput : client.input = (payload ++ charHash :: digitsOf c).map some ++ later) :
    receivePacket client =
      if c.toNat % 256 = (debugserverGetChecksumForBuffer payload).toNat % 256 then
        (.response payload, client.answered later charPlus)
      else (.responseError, client.answered later charMinus) := by
  have hloop := receiveLoop_packet (c := c) h0 hhash hlen later
  rw [← hinput] at hloop
  rw [receivePacket, hloop]
  exact judgeResponse_packet hlen

theorem receiveResponse_packet (h0 : 0 ∉ payload) (hhash : charHash ∉ payload)
    (hlen : payload.length + 4 < 2 ^ 32)
    (harrives : Arrives client (packetOf payload (digitsOf c)) later) :
    debugserverClientReceiveResponse client =
      if c.toNat % 256 = (debugserverGetChecksumForBuffer payload).toNat % 256 then
        (.response payload, client.answered later charPlus)
      else (.responseError, client.answered later charMinus) := by
  rw [harrives.receiveResponse]
  exact receivePacket_packet h0 hhash hlen rfl

end Receive

/-! ## Building a packet -/

/-- The arguments, two digits a byte. -/
def hexEncoded (arguments : List UInt8) : List UInt8 :=
  arguments.flatMap fun ch => [hexEncodeFirst ch.toNat, hexEncodeSecond ch.toNat]

theorem length_hexEncoded (arguments : List UInt8) :
    (hexEncoded arguments).length = 2 * arguments.length := by
  induction arguments with
  | nil => rfl
  | cons ch arguments ih =>
    rw [hexEncoded, flatMap_cons, length_append, ← hexEncoded, ih, length_cons,
      length_cons, length_cons, length_nil]
    omega

theorem hexEncoded_ne {arguments : List UInt8} {b : UInt8} (hb : b ∈ hexEncoded arguments) :
    b ≠ 0 ∧ b ≠ charHash := by
  rw [hexEncoded, mem_flatMap] at hb
  obtain ⟨ch, -, hb⟩ := hb
  rw [mem_cons, mem_singleton] at hb
  rcases hb with rfl | rfl
  · exact int2hex_ne (Nat.mod_lt _ (by decide))
  · exact int2hex_ne (Nat.mod_lt _ (by decide))

theorem encodeLoop_eq {encodedLength : Nat} (arguments : List UInt8) (index : Nat)
    (hlen : 2 * (index + arguments.length) < encodedLength) :
    encodeLoop encodedLength index arguments = some (hexEncoded arguments) := by
  induction arguments generalizing index with
  | nil => rfl
  | cons ch arguments ih =>
    rw [length_cons] at hlen
    rw [encodeLoop, if_pos (by omega), ih (index + 1) (by omega)]
    rfl

theorem encodeString_eq {arguments : List UInt8} (hlen : 2 * arguments.length + 4 < 2 ^ 32) :
    debugserverEncodeString arguments = some (hexEncoded arguments) := by
  have hlength : arguments.length % 2 ^ 32 = arguments.length := Nat.mod_eq_of_lt (by omega)
  have hencoded : (2 * arguments.length + checksumHashLength + 1) % 2 ^ 32 =
      2 * arguments.length + 4 := Nat.mod_eq_of_lt hlen
  rw [debugserverEncodeString, hlength, hencoded, take_length]
  exact encodeLoop_eq arguments 0 (by omega)

/-- The payload of a command: its name, and its arguments in digits. -/
def payloadOf (command : List UInt8) (arguments : Option (List UInt8)) : List UInt8 :=
  command ++ hexEncoded (arguments.getD [])

theorem formatCommand_eq {command : List UInt8} {arguments : Option (List UInt8)}
    (hlen : (payloadOf command arguments).length + 4 < 2 ^ 32) :
    debugserverFormatCommand [charDollar] command arguments true =
      some (packetOf (payloadOf command arguments)
          (digitsOf (debugserverGetChecksumForBuffer (payloadOf command arguments))),
        (payloadOf command arguments).length + 4) := by
  have hencoded : encodeArguments arguments = some (hexEncoded (arguments.getD [])) := by
    cases arguments with
    | none => rfl
    | some arguments =>
      rw [payloadOf, length_append, length_hexEncoded, Option.getD_some] at hlen
      exact encodeString_eq (by omega)
  have hlength : (payloadOf command arguments).length % 2 ^ 32 =
      (payloadOf command arguments).length := Nat.mod_eq_of_lt (by omega)
  have hsize : ([charDollar].length + (payloadOf command arguments).length +
      checksumHashLength) % 2 ^ 32 = (payloadOf command arguments).length + 4 := by
    simp only [length_singleton, checksumHashLength]
    omega
  have hhash : checksumHash (payloadOf command arguments) true =
      charHash :: digitsOf (debugserverGetChecksumForBuffer (payloadOf command arguments)) := by
    rw [checksumHash, if_pos rfl, hlength]
    dsimp only
    rw [take_length]
    rfl
  rw [debugserverFormatCommand, hencoded, Option.map_some, ← payloadOf]
  dsimp only
  rw [hhash, hsize]
  rfl

/-! ## A packet with one byte replaced -/

theorem sum_set {payload : List UInt8} {i : Nat} (hi : i < payload.length) (b : UInt8) :
    ((payload.set i b).map UInt8.toNat).sum + payload[i].toNat =
      (payload.map UInt8.toNat).sum + b.toNat := by
  induction payload generalizing i with
  | nil => exact absurd hi (Nat.not_lt_zero i)
  | cons a payload ih =>
    cases i with
    | zero =>
      simp only [set_cons_zero, map_cons, sum_cons, getElem_cons_zero]
      omega
    | succ i =>
      have := ih (Nat.lt_of_succ_lt_succ hi)
      simp only [set_cons_succ, map_cons, sum_cons, getElem_cons_succ]
      omega

theorem checksum_set_ne {payload : List UInt8} {i : Nat} (hi : i < payload.length) {b : UInt8}
    (hb : b ≠ payload[i]) :
    (debugserverGetChecksumForBuffer payload).toNat % 256 ≠
      (debugserverGetChecksumForBuffer (payload.set i b)).toNat % 256 := by
  have hsum := sum_set hi b
  have hne : b.toNat ≠ payload[i].toNat := fun h => hb (UInt8.toNat_inj.1 h)
  have h1 := b.toNat_lt
  have h2 := payload[i].toNat_lt
  rw [checksum_mod, checksum_mod]
  omega

theorem packetOf_set {payload : List UInt8} {i : Nat} (hi : i < payload.length) (b : UInt8)
    (digits : List UInt8) :
    (packetOf payload digits).set (i + 1) b = packetOf (payload.set i b) digits := by
  rw [packetOf, set_cons_succ, set_append_left i b hi]
  rfl

/-- **Packet framing.**  A packet that fits into 32 bits and was built for a name without `NUL`
and `#` is accepted, and the payload is returned.  With one byte of the payload replaced, by
none of these two, it is refused. -/
theorem receiveResponse_formatCommand {command : List UInt8} (arguments : Option (List UInt8))
    (h0 : 0 ∉ command) (hhash : charHash ∉ command)
    (hlen : command.length + 2 * (arguments.getD []).length + 4 < 2 ^ 32) :
    ∃ packet, debugserverFormatCommand [charDollar] command arguments true =
        some (packet, packet.length) ∧
      (∃ digits : List UInt8, digits.length = 2 ∧
        packet = charDollar :: (payloadOf command arguments ++ charHash :: digits)) ∧
      debugserverResponseIsChecksumValid packet packet.length = some true ∧
      (∀ client later, Arrives client packet later → debugserverClientReceiveResponse client =
          (.response (payloadOf command arguments), client.answered later charPlus)) ∧
      ∀ (i : Nat) (hi : i < (payloadOf command arguments).length) (b : UInt8),
        b ≠ (payloadOf command arguments)[i] → b ≠ 0 → b ≠ charHash →
        ∀ client later, Arrives client (packet.set (i + 1) b) later →
          debugserverClientReceiveResponse client =
            (.responseError, client.answered later charMinus) := by
  have hpayload : (payloadOf command arguments).length + 4 < 2 ^ 32 := by
    rw [payloadOf, length_append, length_hexEncoded]
    exact hlen
  have hmem : ∀ b ∈ payloadOf command arguments, b ≠ 0 ∧ b ≠ charHash := by
    intro b hb
    rcases mem_append.1 hb with hb | hb
    · exact ⟨fun h => h0 (h ▸ hb), fun h => hhash (h ▸ hb)⟩
    · exact hexEncoded_ne hb
  have hlength : ∀ c : BitVec 32, (packetOf (payloadOf command arguments) (digitsOf c)).length =
      (payloadOf command arguments).length + 4 := by
    intro c
    rw [packetOf, digitsOf, length_cons, length_append]
    rfl
  refine ⟨packetOf (payloadOf command arguments)
    (digitsOf (debugserverGetChecksumForBuffer (payloadOf command arguments))),
    ?_, ⟨_, ?_, rfl⟩, ?_, ?_, ?_⟩
  · rw [formatCommand_eq hpayload, hlength]
  · rfl
  · rw [hlength, isChecksumValid_packet hpayload, decide_eq_true rfl]
  · intro client later harrives
    rw [receiveResponse_packet (fun h => (hmem _ h).1 rfl) (fun h => (hmem _ h).2 rfl) hpayload
      harrives]
    exact if_pos rfl
  · intro i hi b hb hb0 hbhash client later harrives
    have hmem' : ∀ b' ∈ (payloadOf command arguments).set i b, b' ≠ 0 ∧ b' ≠ charHash := by
      intro b' hb'
      rcases mem_or_eq_of_mem_set hb' with hb' | rfl
      · exact hmem b' hb'
      · exact ⟨hb0, hbhash⟩
    rw [packetOf_set hi] at harrives
    rw [receiveResponse_packet (fun h => (hmem' _ h).1 rfl) (fun h => (hmem' _ h).2 rfl)
      (by rw [length_set]; exact hpayload) harrives]
    exact if_neg (checksum_set_ne hi hb)

/-- `$g#67`, the reply `+$g#67`, and a reply in which the `g` has become an `f`. -/
theorem receiveResponse_formatCommand_g :
    ∃ packet, debugserverFormatCommand [charDollar] [0x67] none true =
        some (packet, packet.length) ∧
      (∃ digits : List UInt8, digits.length = 2 ∧
        packet = charDollar :: (payloadOf [0x67] none ++ charHash :: digits)) ∧
      debugserverResponseIsChecksumValid packet packet.length = some true ∧
      (∀ client later, Arrives client packet later → debugserverClientReceiveResponse client =
          (.response [0x67], client.answered later charPlus)) ∧
      ∀ client later, Arrives client (packet.set 1 0x66) later →
        debugserverClientReceiveResponse client =
          (.responseError, client.answered later charMinus) := by
  obtain ⟨packet, hformat, hpacket, hvalid, hread, hset⟩ :=
    @receiveResponse_formatCommand [0x67] none (by decide) (by decide) (by decide)
  exact ⟨packet, hformat, hpacket, hvalid, hread,
    hset 0 (by decide) 0x66 (by decide) (by decide) (by decide)⟩

/-- A client in ack mode that is sent these bytes. -/
def ackClient (bytes : List UInt8) : DebugserverClient :=
  ⟨false, (charPlus :: bytes).map some, []⟩

/-- The packet of `a00` with its `a` turned into a `#`, and that of `-8` with its `8` turned
into a `NUL`, are accepted; and the arguments of 2 ^ 31 bytes overrun the buffer for their digits. -/
theorem replaced_accepted :
    debugserverFormatCommand [charDollar] [0x61, 0x30, 0x30] none true =
        some ([0x24, 0x61, 0x30, 0x30, 0x23, 0x43, 0x31], 7) ∧
      (debugserverClientReceiveResponse
        (ackClient [0x24, 0x23, 0x30, 0x30, 0x23, 0x43, 0x31])).1 = .response [] ∧
      debugserverFormatCommand [charDollar] [0x2D, 0x38] none true =
        some ([0x24, 0x2D, 0x38, 0x23, 0x36, 0x35], 6) ∧
      (debugserverClientReceiveResponse
        (ackClient [0x24, 0x2D, 0x00, 0x23, 0x36, 0x35])).1 = .response [0x2D, 0x23] ∧
      debugserverFormatCommand [charDollar] [0x41]
        (some (List.replicate (2 ^ 31) 0x41)) true = none := by
  refine ⟨by decide +kernel, by decide +kernel, by decide +kernel, by decide +kernel, ?_⟩
  have hloop : ∀ rest : List UInt8, encodeLoop 4 0 (0x41 :: 0x41 :: 0x41 :: rest) = none := by
    intro rest
    rfl
  have hencode : debugserverEncodeString (List.replicate (2 ^ 31) 0x41) = none := by
    rw [debugserverEncodeString, length_replicate]
    rw [show 2 ^ 31 % 2 ^ 32 = 2 ^ 31 by norm_num, take_of_length_le
      (by rw [length_replicate])]
    rw [show (2 ^ 31 : Nat) = 2147483645 + 1 + 1 + 1 by norm_num, replicate_succ,
      replicate_succ, replicate_succ]
    exact hloop _
  rw [debugserverFormatCommand, encodeArguments, hencode]
  rfl

end IDeviceStack.Libimobiledevice
