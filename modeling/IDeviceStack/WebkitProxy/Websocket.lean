/-
# `WebkitProxy.Websocket` — frames

`websocket.c` of the proxy from the end of the handshake on: `ws_send_frame`,
`ws_read_frame_length`, `ws_read_frame` and the receive loop.  The states of the
HTTP handshake are not here.

* The callbacks are in the environment.  `on_frame` is told a frame, tells
  whether the data is to be kept, and may answer with frames of its own; all of
  that is a function of the frame.
* A frame length is a `size_t` and can wrap.  Then the mask may be read behind
  the input; `beyond` is what stands there.  A copy that leaves the input or the
  block ends the program: state `crashed`.
* `calls` is what the callbacks were called with, errors included.
-/
import IDeviceStack.Lib.Endian
import IDeviceStack.WebkitProxy.CharBuffer

namespace IDeviceStack.WebkitProxy

open Lib

def opcodeContinuation : UInt8 := 0x0
def opcodeText : UInt8 := 0x1
def opcodeBinary : UInt8 := 0x2
def opcodeClose : UInt8 := 0x8
def opcodePing : UInt8 := 0x9
def opcodePong : UInt8 := 0xA

def knownOpcodes : List UInt8 :=
  [opcodeContinuation, opcodeText, opcodeBinary, opcodeClose, opcodePing, opcodePong]

/-- The states of a connection behind the handshake. -/
inductive WsState where
  | error
  | readFrameLength
  | readFrame
  | closed
  /-- Not a state of the source: the program has left the memory it may touch. -/
  | crashed
  deriving DecidableEq, Repr

/-- The messages of `on_error`, with their arguments. -/
inductive WsError where
  | alreadySentClose
  | nullArg
  | invalidOpcode (opcode : UInt8)
  | controlNotFin (opcode : UInt8)
  | controlPayloadLength (opcode : UInt8) (length : Nat)
  | expectingContinue (continued opcode : UInt8)
  | invalidUtf8 (isMasking : Bool) (ch : UInt8) (position : Nat)
  | outOfMemory
  | reservedFlags (flags head : UInt8)
  | unknownOpcode (opcode head : UInt8)
  | continueButPrevWasFin
  | invalidPartialFrame
  | payloadExceedsCapacity (length : Nat)
  | beginInputBuffer
  | endInputBuffer
  deriving DecidableEq, Repr

/-- What `on_frame` is told. -/
structure Frame where
  isFin : Bool
  opcode : UInt8
  isMasking : Bool
  data : List UInt8
  deriving DecidableEq, Repr

inductive WsCall where
  | onFrame (frame : Frame)
  | onError (e : WsError)
  | sendData (bytes : List UInt8)
  deriving DecidableEq, Repr

/-- The fields of `struct ws_private` that outlive the handshake, but for `in`. -/
structure Ws where
  state : WsState
  out : Cb
  data : Cb
  neededLength : Nat
  frameLength : Nat
  continuedOpcode : UInt8
  sentClose : Bool
  calls : List WsCall

/-- A connection as the handshake leaves it. -/
def wsUpgraded : Ws := ⟨.readFrameLength, cbNew, cbNew, 0, 0, 0, false, []⟩

def Ws.call (ws : Ws) (c : WsCall) : Ws := { ws with calls := ws.calls ++ [c] }

/-! ## UTF-8 -/

/-- The rows of the table in `validate_utf8.h`. -/
inductive Utf8State where
  | s0 | t1 | t2 | s1 | s2 | t3 | s3 | s4 | er
  deriving DecidableEq, Repr

/-- The table. -/
def validateUtf8 (st : Utf8State) (ch : UInt8) : Utf8State :=
  match st with
  | .s0 =>
    if ch ≤ 0x7F then .s0
    else if ch ≤ 0xC1 then .er
    else if ch ≤ 0xDF then .t1
    else if ch = 0xE0 then .s1
    else if ch ≤ 0xEC then .t2
    else if ch = 0xED then .s2
    else if ch ≤ 0xEF then .t2
    else if ch = 0xF0 then .s3
    else if ch ≤ 0xF3 then .t3
    else if ch = 0xF4 then .s4
    else .er
  | .t1 => if 0x80 ≤ ch ∧ ch ≤ 0xBF then .s0 else .er
  | .t2 => if 0x80 ≤ ch ∧ ch ≤ 0xBF then .t1 else .er
  | .s1 => if 0xA0 ≤ ch ∧ ch ≤ 0xBF then .t1 else .er
  | .s2 => if 0x80 ≤ ch ∧ ch ≤ 0x9F then .t1 else .er
  | .t3 => if 0x80 ≤ ch ∧ ch ≤ 0xBF then .t2 else .er
  | .s3 => if 0x90 ≤ ch ∧ ch ≤ 0xBF then .t2 else .er
  | .s4 => if 0x80 ≤ ch ∧ ch ≤ 0x8F then .t2 else .er
  | .er => .er

/-- The loop over the text: the first byte that cannot stand where it does.  A character that is
cut off at the end is let through. -/
def utf8Invalid (st : Utf8State) (position : Nat) : List UInt8 → Option (UInt8 × Nat)
  | [] => none
  | ch :: rest =>
    if validateUtf8 st ch = .er then some (ch, position)
    else utf8Invalid (validateUtf8 st ch) (position + 1) rest

def textInvalid (opcode2 : UInt8) (data : List UInt8) : Option (UInt8 × Nat) :=
  if opcode2 = opcodeText then utf8Invalid .s0 0 data else none

/-! ## Sending -/

/-- The loop `ch ^ mask[mask_offset++ & 3]`. -/
def applyMask (mask payload : List UInt8) : List UInt8 :=
  payload.mapIdx fun i ch => ch ^^^ mask.getD (i % 4) 0

/-- The arguments of `ws_send_frame`, and what `ws_random_buf` gives. -/
structure SendFrame where
  isFin : Bool
  opcode : UInt8
  isMasking : Bool
  /-- `none` is the null pointer. -/
  payload : Option (List UInt8)
  mask : Fin 4 → UInt8

/-- `payload_n` of the sender. -/
def payloadN (payloadLength : Nat) : Nat :=
  if payloadLength < 126 then 0 else if payloadLength < 65535 then 2 else 8

/-- The loop that writes the length, with `sizeof(payload_length)`. -/
def lengthField (memSize n payloadLength : Nat) : List UInt8 :=
  (List.range n).reverse.map fun j =>
    if j ≥ memSize then 0 else UInt8.ofNat (payloadLength >>> (j <<< 3))

def isControl (opcode : UInt8) : Bool := opcodeClose ≤ opcode

/-- The checks of `ws_send_frame`. -/
def sendError (ws : Ws) (a : SendFrame) : Option WsError :=
  if ws.sentClose then some .alreadySentClose
  else
    match a.payload with
    | none => some .nullArg
    | some payload =>
      if a.opcode ∉ knownOpcodes then some (.invalidOpcode a.opcode)
      else if isControl a.opcode ∧ ¬ a.isFin then some (.controlNotFin a.opcode)
      else if isControl a.opcode ∧ payload.length > 125 then
        some (.controlPayloadLength a.opcode payload.length)
      else if ¬ isControl a.opcode ∧ ws.continuedOpcode ≠ 0 ∧ ws.continuedOpcode ≠ a.opcode then
        some (.expectingContinue ws.continuedOpcode a.opcode)
      else
        let opcode2 :=
          if ¬ isControl a.opcode ∧ ws.continuedOpcode ≠ 0 then opcodeContinuation else a.opcode
        (textInvalid opcode2 payload).map fun bad => .invalidUtf8 a.isMasking bad.1 bad.2

/-- The bytes of a frame. -/
def frameBytes (m : Machine) (isFin : Bool) (opcode2 : UInt8) (isMasking : Bool)
    (mask : Fin 4 → UInt8) (payload : List UInt8) : List UInt8 :=
  let n := payloadN payload.length
  let first := (if isFin then 0x80 else 0) ||| (opcode2 &&& 0x0F)
  let second := (if isMasking then 0x80 else 0) |||
    (if n = 0 then UInt8.ofNat payload.length else if n = 2 then 126 else 127)
  first :: second :: (lengthField (m.bits / 8) n payload.length ++
    if isMasking then List.ofFn mask ++ applyMask (List.ofFn mask) payload else payload)

/-- The machine and the callbacks. -/
structure WsEnv where
  machine : Machine
  /-- The requests for the memory of `in` that are granted. -/
  inGrants : Nat → Bool
  /-- `send_data` succeeds. -/
  sends : List UInt8 → Bool
  /-- `should_keep` after `on_frame`. -/
  keeps : Frame → Bool
  /-- The calls of `ws_send_frame` that `on_frame` makes. -/
  answers : Frame → List SendFrame
  /-- What stands in memory behind the input. -/
  beyond : List UInt8

/-- The machine as `in` meets it. -/
def WsEnv.inMachine (env : WsEnv) : Machine := { env.machine with grants := env.inGrants }

def wsSendFrame (env : WsEnv) (ws : Ws) (a : SendFrame) : Ws :=
  match sendError ws a with
  | some e => ws.call (.onError e)
  | none =>
    let payload := a.payload.getD []
    let opcode2 :=
      if ¬ isControl a.opcode ∧ ws.continuedOpcode ≠ 0 then opcodeContinuation else a.opcode
    let needed := 2 + payloadN payload.length + (if a.isMasking then 4 else 0) + payload.length
    match cbEnsureCapacity env.machine (cbClear ws.out) (needed % 2 ^ env.machine.bits) with
    | (out, false) => { ws with out := out }.call (.onError .outOfMemory)
    | (out, true) =>
      let bytes := frameBytes env.machine a.isFin opcode2 a.isMasking a.mask payload
      if out.block.length < out.tail + bytes.length then { ws with state := .crashed }
      else
        { ws with
          out := out.put bytes
          continuedOpcode :=
            if ¬ a.isFin ∧ ws.continuedOpcode = 0 then a.opcode else ws.continuedOpcode
          sentClose := ws.sentClose || (env.sends bytes && a.opcode == opcodeClose)
        }.call (.sendData bytes)

/-! ## Reading -/

/-- `payload_n` of the reader: from the seven bits of the second byte. -/
def payloadNOf (len7 : Nat) : Nat := if len7 < 126 then 0 else if len7 < 127 then 2 else 8

/-- The second byte: whether there is a mask, and its seven bits. -/
def hasMask (b1 : UInt8) : Bool := b1 &&& 0x80 ≠ 0
def len7 (b1 : UInt8) : Nat := (b1 &&& 0x7f).toNat

/-- The bytes of a header in front of the payload. -/
def maskLength (b1 : UInt8) : Nat := if hasMask b1 then 4 else 0

/-- The checks of `ws_read_frame_length` on the first two bytes. -/
def headerError (continued b0 b1 : UInt8) : Option WsError :=
  let isFin := b0 &&& 0x80 ≠ 0
  let opcode := b0 &&& 0x0F
  if b0 &&& 0x70 ≠ 0 then some (.reservedFlags (b0 &&& 0x70) b0)
  else if opcode ∉ knownOpcodes then some (.unknownOpcode opcode b0)
  else if isControl opcode ∧ ¬ isFin then some (.controlNotFin opcode)
  else if opcode = opcodeContinuation ∧ continued = 0 then some .continueButPrevWasFin
  else if opcode ≠ opcodeContinuation ∧ ¬ isControl opcode ∧ continued ≠ 0 then
    some (.expectingContinue continued opcode)
  else if isControl opcode ∧ len7 b1 > 125 then some (.controlPayloadLength opcode (len7 b1))
  else none

/-- `payload_length <<= 8; payload_length |= …`, byte after byte. -/
def readLength (bits : Nat) (bytes : List UInt8) : Nat :=
  bytes.foldl (fun len b => (len <<< 8) % 2 ^ bits ||| b.toNat) 0

/-- The new `needed_length` and `frame_length`, or an error. -/
def frameLengthOf (bits : Nat) (continued : UInt8) (u : List UInt8) : Except WsError (Nat × Nat) :=
  match u with
  | b0 :: b1 :: rest =>
    match headerError continued b0 b1 with
    | some e => .error e
    | none =>
      let n := payloadNOf (len7 b1)
      if u.length < 2 + n then .ok (2 + n, 0)
      else
        let payloadLength := if n > 0 then readLength bits (rest.take n) else len7 b1
        .ok (0, (2 + n + maskLength b1 + payloadLength) % 2 ^ bits)
  | _ => .ok (2, 0)

def wsReadFrameLength (bits : Nat) (ws : Ws) (u : List UInt8) : Ws × Option WsError :=
  match frameLengthOf bits ws.continuedOpcode u with
  | .ok (needed, frame) => ({ ws with neededLength := needed, frameLength := frame }, none)
  | .error e => ({ ws with neededLength := 0, frameLength := 0 }, some e)

/-- The outcome of `ws_read_frame`, with the bytes by which `in_head` has moved. -/
inductive ReadFrame where
  | error (ws : Ws) (consumed : Nat) (e : WsError)
  | crash
  | ok (ws : Ws) (consumed : Nat) (isFin : Bool) (opcode : UInt8) (isMasking : Bool)

/-- `payload_length` of `ws_read_frame`: the subtraction is one of `size_t`. -/
def payloadLengthOf (bits frameLength : Nat) (b1 : UInt8) : Nat :=
  let n := payloadNOf (len7 b1)
  if n > 0 then (frameLength + 2 ^ bits - (2 + maskLength b1 + n)) % 2 ^ bits else len7 b1

def wsReadFrame (env : WsEnv) (ws : Ws) (u : List UInt8) : ReadFrame :=
  if ws.neededLength ≠ 0 ∨ ws.frameLength = 0 ∨ u.length < ws.frameLength then
    .error ws 0 .invalidPartialFrame
  else
    let b0 := u.getD 0 0
    let b1 := u.getD 1 0
    let isFin : Bool := b0 &&& 0x80 ≠ 0
    let opcode := b0 &&& 0x0F
    let opcode2 := if opcode = opcodeContinuation then ws.continuedOpcode else opcode
    let payloadLength := payloadLengthOf env.machine.bits ws.frameLength b1
    let maskHead := 2 + payloadNOf (len7 b1)
    let mask := ((u ++ env.beyond).drop maskHead).take (maskLength b1)
    let isMasking := mask.any (· ≠ 0)
    let payloadHead := maskHead + maskLength b1
    match cbEnsureCapacity env.machine ws.data payloadLength with
    | (data, false) => .error { ws with data := data } 0 (.payloadExceedsCapacity payloadLength)
    | (data, true) =>
      if u.length < payloadHead + payloadLength ∨ data.block.length < data.tail + payloadLength then
        .crash
      else
        let payload := (u.drop payloadHead).take payloadLength
        let plain := if isMasking then applyMask mask payload else payload
        -- only the loop over the masked bytes moves `in_head`; the `memcpy` does not
        let consumed := payloadHead + if isMasking then payloadLength else 0
        match textInvalid opcode2 plain with
        | some bad => .error { ws with data := data.write plain } consumed
            (.invalidUtf8 isMasking bad.1 bad.2)
        | none => .ok { ws with data := data.put plain } consumed isFin opcode2 isMasking

/-! ## The receive loop -/

def wsRecvFrameLength (env : WsEnv) (ws : Ws) (u : List UInt8) : Turn Ws :=
  match wsReadFrameLength env.machine.bits ws u with
  | (ws, some e) => .halt { ws.call (.onError e) with state := .error } 0
  | (ws, none) =>
    if ws.neededLength ≠ 0 ∨ ws.frameLength = 0 then .wait ws
    else .go { ws with state := .readFrame } 0

/-- What follows a frame: the callback, and what is kept of the message. -/
def afterFrame (env : WsEnv) (ws : Ws) (isFin : Bool) (opcode : UInt8) (isMasking : Bool) : Ws :=
  let frame : Frame := ⟨isFin, opcode, isMasking, ws.data.block.take ws.data.tail⟩
  let ws := (env.answers frame).foldl
    (fun ws a => if ws.state = .crashed then ws else wsSendFrame env ws a) (ws.call (.onFrame frame))
  { ws with
    data := if isFin || !env.keeps frame then cbClear ws.data else ws.data
    continuedOpcode :=
      if isFin then 0 else if opcode ≠ opcodeContinuation then opcode else ws.continuedOpcode
    state := if ws.state = .crashed then .crashed
      else if opcode = opcodeClose then .closed else .readFrameLength }

def wsRecvFrame (env : WsEnv) (ws : Ws) (u : List UInt8) : Turn Ws :=
  if ws.neededLength ≠ 0 ∨ ws.frameLength = 0 ∨ u.length < ws.frameLength then .wait ws
  else
    match wsReadFrame env ws u with
    | .error ws n e => .halt { ws.call (.onError e) with state := .error } n
    | .crash => .halt { ws with state := .crashed } 0
    | .ok ws n isFin opcode isMasking =>
      let ws := afterFrame env ws isFin opcode isMasking
      if ws.state = .readFrameLength then .go ws n else .halt ws n

/-- One turn of the `while` in `ws_recv_loop`. -/
def recvTurn (env : WsEnv) (ws : Ws) (u : List UInt8) : Turn Ws :=
  match ws.state with
  | .readFrameLength => wsRecvFrameLength env ws u
  | .readFrame => wsRecvFrame env ws u
  | .closed | .error | .crashed => .wait ws

/-- A frame length is read before a frame, and a frame has at least two bytes. -/
def recvRank (ws : Ws) (u : List UInt8) : Nat :=
  2 * u.length + if ws.state = .readFrameLength then 1 else 0

def wsRecvLoop (env : WsEnv) (ws : Ws) (u : List UInt8) : Ws × List UInt8 :=
  drainAll (recvTurn env) recvRank ws u

/-- `ws_on_recv`; the second component is `in`. -/
def wsOnRecv (env : WsEnv) (w : Ws × Cb) (buf : List UInt8) : Ws × Cb :=
  if buf.isEmpty then w
  else
    match cbBeginInput env.inMachine w.2 buf with
    | (cb, false) => (w.1.call (.onError .beginInputBuffer), cb)
    | (cb, true) =>
      let (ws, rest) := wsRecvLoop env w.1 cb.input
      match cbEndInput env.inMachine { cb with input := rest } with
      | (cb, false) => (ws.call (.onError .endInputBuffer), cb)
      | (cb, true) => (ws, cb)

end IDeviceStack.WebkitProxy
