/-
# `Usbmuxd.Connection` — one mux connection of the daemon

The functions of `usbmuxd/src/device.c` that work on one `mux_connection`, with the
two callers that reach it without a segment or a socket event,
`device_check_timeouts` and `device_remove`.

## Conventions

* `uint32_t`, `uint16_t` and `uint8_t` fields are bit vectors, so every sum and
  difference wraps as in C.  `ib_buf` is the whole buffer, of length
  `CONN_INBUF_SIZE`; its contents are the first `ib_size` bytes.
* What the daemon asks of the outside — `usb_send`, `send`, `recv`,
  `client_notify_connect`, the clock — is answered by an `Env`, which maps the
  number of earlier questions to an answer.  Quantifying over `Env` covers
  every pattern of failures and of partial reads and writes; the types of
  `clientSend` and `clientRecv` are all that `send(2)` and `recv(2)` promise.
* A connection that `connection_teardown` has freed is `Slot.freed`.  A C
  function that goes on to use the pointer reaches `Slot.dangling`: from there C
  promises nothing, and the model stops.
* `Sys.trace` records, in order, what the outside can see.  The code does not
  read it.

The search for the connection with the right ports is not part of this module.
-/
import IDeviceStack.Lib.Buffer

namespace IDeviceStack.Usbmuxd

open Lib

abbrev U8 := BitVec 8
abbrev U16 := BitVec 16
abbrev U32 := BitVec 32

/-- `USB_MTU` of `usb.h`. -/
def usbMtu : Nat := 3 * 16384
/-- `DEV_MRU`: no mux packet handed on by `device_data_input` is longer. -/
def devMru : Nat := 65536
def connInbufSize : Nat := 262144
def connOutbufSize : Nat := 65536
def ackTimeout : Nat := 30
/-- `sizeof(struct mux_header)`. -/
def sizeofMuxHeader : Nat := 16
/-- `sizeof(struct version_header)`. -/
def sizeofVersionHeader : Nat := 12
/-- `sizeof(struct tcphdr)`. -/
def sizeofTcphdr : Nat := 20

def thSyn : U8 := 0x02#8
def thRst : U8 := 0x04#8
def thAck : U8 := 0x10#8

inductive MuxProtocol where
  | version
  | control
  | setup
  | tcp
  deriving DecidableEq, Repr

inductive MuxDevState where
  | init
  | active
  | dead
  deriving DecidableEq, Repr

inductive MuxConnState where
  | connecting
  | connected
  | refused
  | dying
  | dead
  deriving DecidableEq, Repr

/-- The fields of `struct tcphdr` that vary, in host order. -/
structure Tcphdr where
  sport : U16
  dport : U16
  seq : U32
  ack : U32
  flags : U8
  win : U16
  deriving DecidableEq, Repr

/-- The protocol header that follows the mux header. -/
inductive Header where
  | version (major minor : U32)
  | none
  | tcp (th : Tcphdr)
  deriving DecidableEq, Repr

/-- A packet as handed to `usb_send`.  The two sequence numbers are there from protocol
version 2 on. -/
structure MuxPacket where
  protocol : MuxProtocol
  length : Nat
  seqs : Option (U16 × U16)
  header : Header
  data : List UInt8
  deriving DecidableEq, Repr

structure MuxDevice where
  state : MuxDevState
  version : Nat
  rxSeq : U16
  txSeq : U16
  deriving DecidableEq, Repr

structure MuxConnection where
  /-- `conn->client` is not `NULL`. -/
  client : Bool
  state : MuxConnState
  sport : U16
  dport : U16
  txSeq : U32
  txAck : U32
  txAcked : U32
  txWin : U32
  rxSeq : U32
  rxRecvd : U32
  rxAck : U32
  rxWin : U32
  maxPayload : U32
  sendable : U32
  /-- `flags & CONN_ACK_PENDING`. -/
  ackPending : Bool
  ibBuf : List UInt8
  ibSize : U32
  ibCapacity : U32
  obCapacity : U32
  /-- `events & POLLIN`. -/
  pollin : Bool
  /-- `events & POLLOUT`. -/
  pollout : Bool
  lastAckTime : BitVec 64

/-- `ib_buf[0 .. ib_size)`. -/
def MuxConnection.ib (c : MuxConnection) : List UInt8 := c.ibBuf.take c.ibSize.toNat

/-- What the outside can see of one connection. -/
inductive Obs where
  /-- A segment of this connection came in. -/
  | segIn (th : Tcphdr)
  /-- Its payload went into the in-buffer. -/
  | accepted (payload : List UInt8)
  /-- A packet was handed to `usb_send`, which took it or did not. -/
  | packetOut (p : MuxPacket) (ok : Bool)
  /-- `send_packet` refused a packet larger than the USB MTU. -/
  | mtuRefusal
  /-- The client's socket took these bytes. -/
  | clientWrote (bytes : List UInt8)
  /-- These bytes were read from the client's socket. -/
  | clientRead (bytes : List UInt8)
  deriving DecidableEq, Repr

/-- The answers of the world outside the daemon.  The argument is the number of questions
asked before. -/
structure Env where
  usbSend : Nat → Bool
  clientSend : Nat → (len : Nat) → Option (Fin (len + 1))
  clientRecv : Nat → (len : Nat) → Option {bs : List UInt8 // bs.length ≤ len}
  notifyConnect : Nat → Bool
  mstime64 : Nat → BitVec 64

/-- The device, the number of questions asked so far, and the trace. -/
structure Sys where
  dev : MuxDevice
  tick : Nat
  trace : List Obs

/-- The memory a `mux_connection` pointer refers to. -/
inductive Slot where
  | live (c : MuxConnection)
  | freed
  | dangling

def Sys.log (s : Sys) (o : Obs) : Sys := { s with trace := s.trace ++ [o] }

/-- One more question was asked. -/
def Sys.asked (s : Sys) : Sys := { s with tick := s.tick + 1 }

/-! ## Sending -/

/-- `hdrlen` of `send_packet`; there is no header for an outgoing control packet. -/
def hdrlenOf : MuxProtocol → Option Nat
  | .version => some sizeofVersionHeader
  | .setup => some 0
  | .tcp => some sizeofTcphdr
  | .control => none

def muxHeaderSize (dev : MuxDevice) : Nat :=
  if dev.version < 2 then 8 else sizeofMuxHeader

/-- The device's sequence counters when a packet of protocol `proto` is stamped. -/
def stampSeqs (dev : MuxDevice) (proto : MuxProtocol) : MuxDevice :=
  if proto = .setup then { dev with txSeq := 0, rxSeq := 0xFFFF#16 } else dev

/-- `send_packet`; `none` is its negative return value. -/
def sendPacket (env : Env) (s : Sys) (proto : MuxProtocol) (header : Header)
    (data : List UInt8) : Sys × Option Nat :=
  match hdrlenOf proto with
  | none => (s, none)
  | some hdrlen =>
    let total := muxHeaderSize s.dev + hdrlen + data.length
    if total > usbMtu then
      (s.log .mtuRefusal, none)
    else
      let stamped := stampSeqs s.dev proto
      let seqs := if s.dev.version < 2 then none else some (stamped.txSeq, stamped.rxSeq)
      let dev := if s.dev.version < 2 then s.dev else { stamped with txSeq := stamped.txSeq + 1 }
      let ok := env.usbSend s.tick
      let s' := ({ s with dev := dev }.asked).log (.packetOut ⟨proto, total, seqs, header, data⟩ ok)
      (s', if ok then some total else none)

/-- The header `send_tcp` fills in. -/
def MuxConnection.tcphdr (c : MuxConnection) (flags : U8) : Tcphdr :=
  ⟨c.sport, c.dport, c.txSeq, c.txAck, flags, (c.txWin >>> 8).truncate 16⟩

def sendTcp (env : Env) (s : Sys) (c : MuxConnection) (flags : U8) (data : List UInt8) :
    Sys × MuxConnection × Option Nat :=
  match sendPacket env s .tcp (.tcp (c.tcphdr flags)) data with
  | (s', some n) =>
    (s'.asked,
      { c with txAcked := c.txAck, lastAckTime := env.mstime64 s'.tick, ackPending := false },
      some n)
  | (s', none) => (s', c, none)

/-! ## Teardown -/

/-- The loop of `connection_teardown` that hands the client what is left in the in-buffer.
Every turn but the last shortens the contents, so `ib_size` turns are enough. -/
def flushLoop (env : Env) : Nat → Sys → MuxConnection → Sys × MuxConnection
  | 0, s, c => (s, c)
  | fuel + 1, s, c =>
    match env.clientSend s.tick c.ibSize.toNat with
    | none => (s.asked, c)
    | some size =>
      if size.val = 0 then
        (s.asked, c)
      else
        let s' := s.asked.log (.clientWrote (c.ibBuf.take size.val))
        if size.val = c.ibSize.toNat then
          (s', { c with ibSize := 0 })
        else
          let left := c.ibSize - BitVec.ofNat 32 size.val
          flushLoop env fuel s'
            { c with ibSize := left, ibBuf := memmove c.ibBuf 0 size.val left.toNat }

/-- `connection_teardown`: reset the peer where that is still of use, tell or flush the
client, and free the connection.  A connection that is being freed already is left alone. -/
def connectionTeardown (env : Env) (s : Sys) (c : MuxConnection) : Sys × Slot :=
  if c.state = .dead then
    (s, .live c)
  else
    let r :=
      if s.dev.state ≠ .dead ∧ c.state ≠ .dying ∧ c.state ≠ .refused then
        let t := sendTcp env s c thRst []
        (t.1, t.2.1)
      else
        (s, c)
    if c.client then
      if c.state = .refused ∨ c.state = .connecting then
        (r.1.asked, .freed)
      else if r.2.pollout ∧ 0 < r.2.ibSize.toNat then
        ((flushLoop env r.2.ibSize.toNat r.1 { r.2 with state := .dead }).1, .freed)
      else
        (r.1, .freed)
    else
      (r.1, .freed)

/-! ## Opening a connection -/

/-- What `malloc(CONN_INBUF_SIZE)` returns: a buffer of that size, with any bytes in it. -/
abbrev InBuf := {buf : List UInt8 // buf.length = connInbufSize}

/-- `device_start_connect` from the point where a source port has been found. -/
def deviceStartConnect (env : Env) (s : Sys) (sport dport : U16) (ibBuf : InBuf) : Sys × Slot :=
  let c : MuxConnection :=
    { client := true, state := .connecting, sport := sport, dport := dport
      txSeq := 0, txAck := 0, txAcked := 0, txWin := 131072#32
      rxSeq := 0, rxRecvd := 0, rxAck := 0, rxWin := 0
      maxPayload := BitVec.ofNat 32 (usbMtu - sizeofMuxHeader - sizeofTcphdr)
      sendable := 0, ackPending := false
      ibBuf := ibBuf.val, ibSize := 0, ibCapacity := BitVec.ofNat 32 connInbufSize
      obCapacity := BitVec.ofNat 32 connOutbufSize
      pollin := false, pollout := false, lastAckTime := 0 }
  match sendTcp env s c thSyn [] with
  | (s', c', some _) => (s', .live c')
  | (s', _, none) => (s', .freed)

/-! ## The flags and masks of a connection -/

/-- The value `update_connection` gives to `sendable`: the window that is left, capped by the
out-buffer and by the payload of one packet. -/
def sendableOf (c : MuxConnection) : U32 :=
  let sent := c.txSeq - c.rxAck
  let window := if c.rxWin > sent then c.rxWin - sent else 0
  let capped := if window > c.obCapacity then c.obCapacity else window
  if capped > c.maxPayload then c.maxPayload else capped

def updateConnection (c : MuxConnection) : MuxConnection :=
  { c with
    sendable := sendableOf c
    pollin := decide (sendableOf c > 0)
    pollout := decide (c.ibSize ≠ 0)
    ackPending := decide (c.txAcked ≠ c.txAck) }

def sendTcpAck (env : Env) (s : Sys) (c : MuxConnection) : Sys × Slot :=
  match sendTcp env s c thAck [] with
  | (s', c', some _) => (s', .live (updateConnection c'))
  | (s', c', none) => connectionTeardown env s' c'

/-! ## Client socket events -/

/-- The `POLLOUT` half of `device_client_process`: write what the client takes.  `.error` is
the early return after a teardown. -/
def clientWritable (env : Env) (s : Sys) (c : MuxConnection) :
    Except (Sys × Slot) (Sys × MuxConnection) :=
  match env.clientSend s.tick c.ibSize.toNat with
  | none => .error (connectionTeardown env s.asked c)
  | some size =>
    if size.val = 0 then
      .error (connectionTeardown env s.asked c)
    else
      let s' := s.asked.log (.clientWrote (c.ibBuf.take size.val))
      let c' := { c with txAck := c.txAck + BitVec.ofNat 32 size.val }
      if size.val = c.ibSize.toNat then
        .ok (s', { c' with ibSize := 0 })
      else
        let left := c.ibSize - BitVec.ofNat 32 size.val
        .ok (s', { c' with ibSize := left, ibBuf := memmove c.ibBuf 0 size.val left.toNat })

/-- The `POLLIN` half of `device_client_process`: read what the window allows and send it on. -/
def clientReadable (env : Env) (s : Sys) (c : MuxConnection) : Sys × Slot :=
  match env.clientRecv s.tick c.sendable.toNat with
  | none => connectionTeardown env s.asked c
  | some data =>
    if data.val = [] then
      connectionTeardown env s.asked c
    else
      match sendTcp env (s.asked.log (.clientRead data.val)) c thAck data.val with
      | (s', c', none) => connectionTeardown env s' c'
      | (s', c', some _) =>
        (s', .live (updateConnection
          { c' with txSeq := c'.txSeq + BitVec.ofNat 32 data.val.length }))

def deviceClientProcess (env : Env) (s : Sys) (c : MuxConnection) (pollin pollout : Bool) :
    Sys × Slot :=
  let written :=
    if pollout ∧ 0 < c.ibSize.toNat then clientWritable env s c else .ok (s, c)
  match written with
  | .error torn => torn
  | .ok (s', c') =>
    if pollin ∧ 0 < c'.sendable.toNat then
      clientReadable env s' c'
    else
      (s', .live (updateConnection c'))

/-! ## Segments from the device -/

def connectionDeviceInput (env : Env) (s : Sys) (c : MuxConnection) (payload : List UInt8) :
    Sys × Slot :=
  let payloadLength := BitVec.ofNat 32 payload.length
  if c.ibSize + payloadLength > c.ibCapacity then
    connectionTeardown env s c
  else
    (s.log (.accepted payload), .live (updateConnection
      { c with
        ibBuf := memcpy c.ibBuf c.ibSize.toNat payload
        ibSize := c.ibSize + payloadLength
        rxRecvd := c.rxRecvd + payloadLength }))

/-- The connection after the SYN/ACK has been counted. -/
def MuxConnection.synAcked (c : MuxConnection) : MuxConnection :=
  { c with txSeq := c.txSeq + 1, txAck := c.txAck + 1, rxRecvd := c.rxSeq }

/-- The connection with the numbers of the segment at hand. -/
def MuxConnection.seen (c : MuxConnection) (th : Tcphdr) : MuxConnection :=
  { c with rxSeq := th.seq, rxAck := th.ack, rxWin := th.win.zeroExtend 32 <<< 8 }

/-- `device_tcp_input` in state `CONN_CONNECTING`. -/
def connectingInput (env : Env) (s : Sys) (c : MuxConnection) (th : Tcphdr) : Sys × Slot :=
  if th.flags ≠ thSyn ||| thAck then
    connectionTeardown env s
      (if th.flags &&& thRst ≠ 0 then { c with state := .refused } else c)
  else
    match sendTcp env s c.synAcked thAck [] with
    | (s₁, c₁, none) => connectionTeardown env s₁ c₁
    | (s₁, c₁, some _) =>
      let c₂ := { c₁ with state := .connected }
      if env.notifyConnect s₁.tick then
        (s₁.asked, .live (updateConnection c₂))
      else
        -- the client is gone: torn down, and then updated through the freed pointer
        ((connectionTeardown env s₁.asked { c₂ with client := false }).1, .dangling)

/-- `device_tcp_input` in state `CONN_CONNECTED`. -/
def connectedInput (env : Env) (s : Sys) (c : MuxConnection) (th : Tcphdr)
    (payload : List UInt8) : Sys × Slot :=
  if th.flags ≠ thAck then
    connectionTeardown env s
      (if th.flags &&& thRst ≠ 0 then { c with state := .dying } else c)
  else
    match connectionDeviceInput env s c payload with
    | (s', .live c') => sendTcpAck env s' c'
    -- the in-buffer overflowed: the ACK goes out through the freed pointer
    | (s', _) => (s', .dangling)

/-- `device_tcp_input`, once the connection has been found. -/
def deviceTcpInput (env : Env) (s : Sys) (c : MuxConnection) (th : Tcphdr)
    (payload : List UInt8) : Sys × Slot :=
  match c.state with
  | .connecting => connectingInput env (s.log (.segIn th)) (c.seen th) th
  | .connected => connectedInput env (s.log (.segIn th)) (c.seen th) th payload
  | _ => (s.log (.segIn th), .live (c.seen th))

/-! ## Timeouts and removal -/

/-- The body of the loop of `device_check_timeouts`, at time `ct`. -/
def checkTimeout (env : Env) (s : Sys) (c : MuxConnection) (ct : BitVec 64) : Sys × Slot :=
  if c.state = .connected ∧ c.ackPending ∧ (ct - c.lastAckTime).toNat > ackTimeout then
    sendTcpAck env s c
  else
    (s, .live c)

/-- `device_remove`, as far as it concerns the connection. -/
def deviceRemove (env : Env) (s : Sys) (c : MuxConnection) : Sys × Slot :=
  if s.dev.state = .active then
    connectionTeardown env { s with dev := { s.dev with state := .dead } } c
  else
    (s, .live c)

/-! ## Runs -/

/-- The events that reach a connection. -/
inductive Event where
  /-- An incoming segment; `device_data_input` hands on at most `DEV_MRU` bytes. -/
  | tcp (th : Tcphdr) (payload : {p : List UInt8 // p.length ≤ devMru})
  /-- The client's socket is readable or writable. -/
  | client (pollin pollout : Bool)
  | checkTimeouts (ct : BitVec 64)
  /-- `device_abort_connect` or `device_kill_connections`. -/
  | abort
  | remove

/-- One event.  A connection that is no longer in the device's collection is not reached. -/
def step (env : Env) (w : Sys × Slot) (e : Event) : Sys × Slot :=
  match w.2 with
  | .live c =>
    match e with
    | .tcp th payload => deviceTcpInput env w.1 c th payload.val
    | .client pollin pollout => deviceClientProcess env w.1 c pollin pollout
    | .checkTimeouts ct => checkTimeout env w.1 c ct
    | .abort => connectionTeardown env w.1 c
    | .remove => deviceRemove env w.1 c
  | _ => w

/-- The run that opens a connection on `dev` and then sees `events`. -/
def run (env : Env) (dev : MuxDevice) (sport dport : U16) (ibBuf : InBuf)
    (events : List Event) : Sys × Slot :=
  events.foldl (step env) (deviceStartConnect env ⟨dev, 0, []⟩ sport dport ibBuf)

end IDeviceStack.Usbmuxd
