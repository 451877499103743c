/-
# `Usbmuxd.Daemon` — the daemon as a whole

Devices, connections and clients of `usbmuxd/src/device.c` and
`usbmuxd/src/client.c`, with the handlers that `main_loop` calls for them.  What one
connection does to its own numbers and buffers is taken from `Usbmuxd.Connection`,
what a client does to its queues from `Usbmuxd.Client`; here is who calls whom, with
which pointer, and under which lock.

* Objects live in heaps, one for each `struct`.  `free` takes an object out, and no
  pointer is given twice, so a stale pointer is one that finds nothing: a handler
  that follows it stops with a `Fault`.  So does one that follows `NULL`, writes past
  the end of a buffer, or takes a mutex that its callers hold.
* `malloc` leaves `dev->connections` as it finds it until `device_version_input` calls
  `collection_init`.  If the memory happens to be zero, that is an empty collection;
  anything else is a fault when it is used.  `early` records that it was used at all.
* `connection_teardown` and `client_close` call each other.  `teardownAt` unrolls these
  calls; that two levels are enough is a fault, `depth`, that never happens.
* The two sequence numbers of a device are kept beside the other fields (`seqs`): only
  `send_packet` and `device_data_input` move them.
* A FOREACH loop visits the elements the collection has when it starts, unless they are
  gone by then; nothing is added to a collection inside of a loop over it.
* `Ledger` records what happened to a client and to its socket.  The code does not read
  it.
* Outside the model are `usb.c`, the XML of the messages and the files with the pairing
  records: an `Outside` answers for them.  A device id is a natural number, since
  `next_device_id` only counts up; the 2^31st device is not met.  `client_device_add`, which
  the preflight thread calls, is one event here.  Shutting down is left out.
-/
import IDeviceStack.Lib.Fault
import IDeviceStack.Usbmuxd.Client
import IDeviceStack.Usbmuxd.Collection
import IDeviceStack.Usbmuxd.Connection
import Mathlib.Logic.Function.Basic

namespace IDeviceStack.Usbmuxd.Daemon

open Lib Function

/-! ## State -/

inductive Fault where
  /-- A `mux_connection` that was freed, and a `NULL` one. -/
  | connFreed
  | connNull
  /-- A `mux_client` that was freed, and a `NULL` one. -/
  | clientFreed
  | clientNull
  /-- A `mux_device` that was freed. -/
  | deviceFreed
  /-- `ib_buf` or `ob_buf` is `NULL`. -/
  | bufferNull
  /-- A write past the end of `ob_buf`. -/
  | overrun
  /-- `dev->connections` before `collection_init`. -/
  | uninitialised
  /-- A mutex that the caller holds. -/
  | relock
  /-- `connection_teardown` inside of itself, twice. -/
  | depth
  deriving DecidableEq, Repr

/-- `struct mux_device`, but for its packet buffer and its sequence numbers. -/
structure Device where
  id : Nat
  usbdev : Nat
  state : MuxDevState
  version : Nat
  visible : Bool
  /-- `none` is memory that is no collection. -/
  connections : Option Collection
  /-- `collection_init` was called for it. -/
  ready : Bool
  nextSport : U16

/-- `struct mux_connection`. -/
structure Conn where
  dev : Ptr
  client : Option Ptr
  mux : MuxConnection

/-- The connection with other numbers and buffers. -/
def Conn.withMux (conn : Conn) (mux : MuxConnection) : Conn := { conn with mux := mux }

/-- Bytes on the socket of a client: from its out-buffer, or from the device. -/
inductive Wire where
  | reply (bytes : List UInt8)
  | raw (bytes : List UInt8)
  deriving DecidableEq, Repr

/-- What has happened to a client. -/
structure Ledger where
  accepted : Bool
  /-- How often its descriptor was closed, it was taken off `client_list`, and its buffers were
  freed. -/
  closes : Nat
  removals : Nat
  ibFrees : Nat
  obFrees : Nat
  /-- The packets queued for it, and what was written to its socket. -/
  queued : List (List UInt8)
  wire : List Wire
  deriving DecidableEq, Repr

def Ledger.blank : Ledger := ⟨false, 0, 0, 0, 0, [], []⟩

structure World where
  devices : Ptr → Option Device
  deviceList : Collection
  conns : Ptr → Option Conn
  clients : Ptr → Option Client
  clientList : Collection
  deviceLock : Bool
  clientLock : Bool
  nextDeviceId : Nat
  /-- The next pointer that `malloc` gives. -/
  fresh : Ptr
  /-- `rx_seq` and `tx_seq` of the devices. -/
  seqs : Ptr → U16 × U16
  /-- The number of questions asked of the outside. -/
  tick : Nat
  ledger : Ptr → Ledger
  /-- A collection was used before `collection_init`. -/
  early : Bool

/-- The daemon after `device_init` and `client_init`. -/
def World.start : World where
  devices := fun _ => none
  deviceList := Collection.init
  conns := fun _ => none
  clients := fun _ => none
  clientList := Collection.init
  deviceLock := false
  clientLock := false
  nextDeviceId := 1
  fresh := 0
  seqs := fun _ => (0, 0)
  tick := 0
  ledger := fun _ => Ledger.blank
  early := false

abbrev Handler (α : Type) := Prog World Fault α

/-! ## The world outside -/

/-- `payload_length` is an `int`. -/
abbrev Payload := {bytes : List UInt8 // bytes.length < 2 ^ 31}

/-- A plist that the daemon sends. -/
inductive Notice where
  | result (number : Nat)
  | attached (id usbdev : Nat)
  | detached (id : Nat)
  | deviceList (devices : List (Nat × Nat))
  | buid
  | pairRecord (data : List UInt8)
  deriving DecidableEq, Repr

/-- What a `MESSAGE_PLIST` asks for. -/
inductive PlistRequest where
  /-- No plist, or one without a `MessageType`. -/
  | unreadable
  | listen
  /-- The values of `DeviceID` and `PortNumber`, where they are there. -/
  | connect (deviceId : Option Nat) (portNumber : Option U16)
  | listDevices
  | readBuid
  | readPairRecord (recordId : Option (List UInt8))
  | savePairRecord (recordId data : Option (List UInt8))
  | deletePairRecord (recordId : Option (List UInt8))
  | unexpected
  deriving DecidableEq, Repr

/-- The answers of the world outside. -/
structure Outside extends Env where
  /-- `realloc` for an out-buffer. -/
  memory : Nat → Bool
  /-- What `malloc` leaves in an in-buffer of a connection. -/
  inBuf : Ptr → InBuf
  /-- `pthread_create` for the preflight thread. -/
  thread : Nat → Bool
  /-- What is in `ib_buf` behind the message. -/
  stale : Nat → List UInt8
  /-- `plist_from_xml`, and the look-ups in the dictionary. -/
  plistRequest : List UInt8 → PlistRequest
  /-- `plist_to_xml`. -/
  xml : Notice → Payload
  /-- `struct usbmuxd_device_record`. -/
  deviceRecord : (id usbdev : Nat) → Payload
  /-- `config_get_device_record`, `config_set_device_record` and `config_remove_device_record`; the
  last two give an `errno`, or 0. -/
  readRecord : Nat → List UInt8 → Option (List UInt8)
  saveRecord : Nat → List UInt8 → List UInt8 → Nat
  removeRecord : Nat → List UInt8 → Nat

def resultOk : Nat := 0
def resultBadcommand : Nat := 1
def resultBaddev : Nat := 2
def resultConnrefused : Nat := 3
def resultBadversion : Nat := 6
def messageResult : Nat := 1
def messageConnect : Nat := 2
def messageListen : Nat := 3
def messageDeviceAdd : Nat := 4
def messageDeviceRemove : Nat := 5
def messagePlist : Nat := 8
def enoent : Nat := 2
def einval : Nat := 22

/-! ## Following pointers -/

def getDev (d : Ptr) : Handler Device := do
  let w ← get
  match w.devices d with
  | some dev => pure dev
  | none => throw .deviceFreed

def getConn (c : Ptr) : Handler Conn := do
  let w ← get
  match w.conns c with
  | some conn => pure conn
  | none => throw .connFreed

def getClient (k : Ptr) : Handler Client := do
  let w ← get
  match w.clients k with
  | some cl => pure cl
  | none => throw .clientFreed

def World.setDev (w : World) (d : Ptr) (dev : Device) : World :=
  { w with devices := update w.devices d (some dev) }

def World.setConn (w : World) (c : Ptr) (conn : Conn) : World :=
  { w with conns := update w.conns c (some conn) }

def World.setClient (w : World) (k : Ptr) (cl : Client) : World :=
  { w with clients := update w.clients k (some cl) }

def World.note (w : World) (k : Ptr) (f : Ledger → Ledger) : World :=
  { w with ledger := update w.ledger k (f (w.ledger k)) }

def World.asked (w : World) : World := { w with tick := w.tick + 1 }

def lockDevices : Handler Unit := do
  let w ← get
  if w.deviceLock then throw .relock else modify fun w => { w with deviceLock := true }

def unlockDevices : Handler Unit := modify fun w => { w with deviceLock := false }

def lockClients : Handler Unit := do
  let w ← get
  if w.clientLock then throw .relock else modify fun w => { w with clientLock := true }

def unlockClients : Handler Unit := modify fun w => { w with clientLock := false }

/-- A FOREACH loop that is left at the first element with `p`. -/
def search {α : Type} (heap : World → Ptr → Option α) (gone : Fault) (p : α → Bool) :
    List Ptr → Handler (Option Ptr)
  | [] => pure none
  | q :: qs => do
      let w ← get
      match heap w q with
      | none => throw gone
      | some a => if p a then pure (some q) else search heap gone p qs

/-- `dev->connections`. -/
def connectionsOf (d : Ptr) : Handler Collection := do
  let dev ← getDev d
  match dev.connections with
  | none => throw .uninitialised
  | some slots => do
      modify fun w => { w with early := w.early || !dev.ready }
      pure slots

/-- A FOREACH loop over `dev->connections`. -/
def forEachConn (d : Ptr) (body : Ptr → Handler Unit) : Handler Unit := do
  let slots ← connectionsOf d
  slots.elems.forM fun c => do
    let now ← connectionsOf d
    if c ∈ now.elems then body c else pure ()

def getMuxDeviceForId (id : Nat) : Handler (Option Ptr) := do
  lockDevices
  let w ← get
  let d ← search World.devices .deviceFreed (fun dev => dev.id = id) w.deviceList.elems
  unlockDevices
  pure d

/-- The inner loop of `get_mux_connection`. -/
def connectionOn (k : Ptr) : Option Ptr → Handler (Option Ptr)
  | none => pure none
  | some d => do
      let slots ← connectionsOf d
      search World.conns .connFreed (fun conn => conn.client = some k) slots.elems

def getMuxConnection (id : Nat) (k : Ptr) : Handler (Option Ptr) := do
  lockDevices
  let w ← get
  let d ← search World.devices .deviceFreed (fun dev => dev.id = id) w.deviceList.elems
  let c ← connectionOn k d
  unlockDevices
  pure c

/-! ## Packets for the client -/

/-- `send_pkt`, and whether it queued the packet. -/
def sendPkt (env : Outside) (k : Ptr) (tag msg : Nat) (payload : Payload) : Handler Bool := do
  let cl ← getClient k
  let w ← get
  let r : Reply := ⟨tag, msg, payload.val, payload.property, env.memory w.tick⟩
  if cl.obNull then
    throw .bufferNull
  else
    match cl.sendPkt r with
    | none => throw .overrun
    | some (cl', true) => do
        modify fun w => ((w.setClient k cl').note k fun l =>
          { l with queued := l.queued ++ [r.bytes cl.protoVersion] }).asked
        pure true
    | some (cl', false) => do
        modify fun w => (w.setClient k cl').asked
        pure false

def sendPlistPkt (env : Outside) (k : Ptr) (tag : Nat) (notice : Notice) : Handler Bool :=
  sendPkt env k tag messagePlist (env.xml notice)

/-- A `uint32_t` as the payload of a binary packet. -/
def payload32 (n : Nat) : Payload :=
  ⟨leBytes 4 n, by rw [length_leBytes]; decide⟩

def sendResult (env : Outside) (k : Ptr) (tag result : Nat) : Handler Bool := do
  let cl ← getClient k
  if cl.protoVersion = 1 then
    sendPlistPkt env k tag (.result result)
  else
    sendPkt env k tag messageResult (payload32 result)

def notifyDeviceAdd (env : Outside) (k : Ptr) (id usbdev : Nat) : Handler Bool := do
  let cl ← getClient k
  if cl.protoVersion = 1 then
    sendPlistPkt env k 0 (.attached id usbdev)
  else
    sendPkt env k 0 messageDeviceAdd (env.deviceRecord id usbdev)

def notifyDeviceRemove (env : Outside) (k : Ptr) (id : Nat) : Handler Bool := do
  let cl ← getClient k
  if cl.protoVersion = 1 then
    sendPlistPkt env k 0 (.detached id)
  else
    sendPkt env k 0 messageDeviceRemove (payload32 id)

/-- `client_notify_connect`, and whether it was done. -/
def clientNotifyConnect (env : Outside) (k : Ptr) (result : Nat) : Handler Bool := do
  let cl ← getClient k
  if cl.state = .dead then
    pure false
  else if cl.state ≠ .connecting1 then
    pure false
  else
    let sent ← sendResult env k cl.connectTag result
    if !sent then
      pure false
    else
      let cl' ← getClient k
      if result = resultOk then
        modify fun w => (w.setClient k
          { cl' with state := .connecting2, pollin := false, pollout := true, ibNull := true }).note k
            fun l => { l with ibFrees := l.ibFrees + 1 }
        pure true
      else
        modify fun w => w.setClient k { cl' with state := .command }
        pure true

def clientSetEvents (k : Ptr) (pollin pollout : Bool) : Handler Unit := do
  let cl ← getClient k
  if cl.state = .connected then
    modify fun w => w.setClient k
      { cl with pollin := pollin, pollout := pollout, devPollin := pollin, devPollout := pollout }
  else if cl.state = .connecting2 then
    modify fun w => w.setClient k { cl with devPollin := pollin, devPollout := pollout }
  else
    pure ()

/-! ## Packets for the device -/

/-- The device of `Usbmuxd.Connection`, and the number of questions asked. -/
def World.sys (w : World) (d : Ptr) (dev : Device) : Sys :=
  ⟨⟨dev.state, dev.version, (w.seqs d).1, (w.seqs d).2⟩, w.tick, []⟩

/-- What is left of sending a packet. -/
def World.sent (w : World) (d : Ptr) (s : Sys) : World :=
  { w with seqs := update w.seqs d (s.dev.rxSeq, s.dev.txSeq), tick := s.tick }

/-- `send_packet`, and whether it went out. -/
def sendPacket (env : Outside) (d : Ptr) (proto : MuxProtocol) (header : Header)
    (data : List UInt8) : Handler Bool := do
  let dev ← getDev d
  let w ← get
  let r := Usbmuxd.sendPacket env.toEnv (w.sys d dev) proto header data
  modify fun w => w.sent d r.1
  pure r.2.isSome

def sendAnonRst (env : Outside) (d : Ptr) (sport dport : U16) (ack : U32) : Handler Bool :=
  sendPacket env d .tcp (.tcp ⟨sport, dport, 0, ack, thRst, 0⟩) []

/-- `send_tcp`, and whether it went out. -/
def sendTcp (env : Outside) (c : Ptr) (flags : U8) (data : List UInt8) : Handler Bool := do
  let conn ← getConn c
  let dev ← getDev conn.dev
  let w ← get
  let r := Usbmuxd.sendTcp env.toEnv (w.sys conn.dev dev) conn.mux flags data
  modify fun w => (w.sent conn.dev r.1).setConn c (conn.withMux r.2.1)
  pure r.2.2.isSome

/-! ## Taking apart -/

/-- The end of `client_close`: the descriptor, the buffers, the list and the client itself. -/
def release (k : Ptr) : Handler Unit := do
  let cl ← getClient k
  modify fun w => w.note k fun l =>
    { l with
      closes := l.closes + 1
      obFrees := if cl.obNull then l.obFrees else l.obFrees + 1
      ibFrees := if cl.ibNull then l.ibFrees else l.ibFrees + 1 }
  lockClients
  modify fun w => { w.note k fun l => { l with removals := l.removals + 1 } with
    clientList := w.clientList.remove k }
  unlockClients
  modify fun w => { w with clients := update w.clients k none }

def deviceAbortConnect (teardown : Ptr → Handler Unit) (id : Nat) (k : Ptr) : Handler Unit := do
  let c ← getMuxConnection id k
  match c with
  | some c => teardown c
  | none => pure ()

/-- `client_close`; the argument is `connection_teardown`. -/
def clientCloseBy (teardown : Ptr → Handler Unit) (k : Ptr) : Handler Unit := do
  let cl ← getClient k
  if cl.state = .connecting1 ∨ cl.state = .connecting2 then
    modify fun w => w.setClient k { cl with state := .dead }
    deviceAbortConnect teardown cl.connectDevice k
    release k
  else
    release k

/-- The bytes a trace has for the client. -/
def clientBytes : List Obs → List UInt8
  | [] => []
  | .clientWrote bytes :: os => bytes ++ clientBytes os
  | _ :: os => clientBytes os

/-- The loop of `connection_teardown` that writes what is left for the client; `client_write` does
so for a client in state `CLIENT_CONNECTED` only. -/
def flushClient (env : Outside) (c k : Ptr) : Handler Unit := do
  let cl ← getClient k
  if cl.state = .connected then
    let conn ← getConn c
    let dev ← getDev conn.dev
    let w ← get
    let r := flushLoop env.toEnv conn.mux.ibSize.toNat (w.sys conn.dev dev) conn.mux
    modify fun w => ({ w with tick := r.1.tick }.setConn c (conn.withMux r.2)).note k fun l =>
      { l with wire := l.wire ++ [Wire.raw (clientBytes r.1.trace)] }
  else
    pure ()

/-- The middle of `connection_teardown`: the client is told, or closed. -/
def tellClient (env : Outside) (close : Ptr → Handler Unit) (c : Ptr) : Handler Unit := do
  let conn ← getConn c
  match conn.client with
  | none => pure ()
  | some k =>
    if conn.mux.state = .refused ∨ conn.mux.state = .connecting then
      let _ ← clientNotifyConnect env k resultConnrefused
      pure ()
    else
      modify fun w => w.setConn c (conn.withMux { conn.mux with state := .dead })
      if conn.mux.pollout ∧ 0 < conn.mux.ibSize.toNat then
        flushClient env c k
        close k
      else
        close k

/-- The end of `connection_teardown`. -/
def freeConn (c : Ptr) : Handler Unit := do
  let conn ← getConn c
  let slots ← connectionsOf conn.dev
  let dev ← getDev conn.dev
  modify fun w =>
    { w.setDev conn.dev { dev with connections := some (slots.remove c) } with
      conns := update w.conns c none }

/-- `connection_teardown`; the argument is `client_close`. -/
def connectionTeardownBy (env : Outside) (close : Ptr → Handler Unit) (c : Ptr) :
    Handler Unit := do
  let conn ← getConn c
  if conn.mux.state = .dead then
    pure ()
  else
    let dev ← getDev conn.dev
    if dev.state ≠ .dead ∧ conn.mux.state ≠ .dying ∧ conn.mux.state ≠ .refused then
      let _ ← sendTcp env c thRst []
      tellClient env close c
      freeConn c
    else
      tellClient env close c
      freeConn c

/-- `connection_teardown`, where it may be called inside of itself less than `n` times. -/
def teardownAt (env : Outside) : Nat → Ptr → Handler Unit
  | 0, _ => throw .depth
  | n + 1, c => connectionTeardownBy env (clientCloseBy (teardownAt env n)) c

def connectionTeardown (env : Outside) (c : Ptr) : Handler Unit := teardownAt env 2 c

def clientClose (env : Outside) (k : Ptr) : Handler Unit := clientCloseBy (teardownAt env 2) k

/-! ## Opening a connection -/

/-- The loop of `find_sport`. -/
def nextFreePort (used : List U16) : Nat → U16 → U16
  | 0, port => port
  | fuel + 1, port => if port ∈ used then nextFreePort used fuel (port + 1) else port

/-- `find_sport`; less than 65535 ports are in use when the loop is entered. -/
def findSport (d : Ptr) : Handler U16 := do
  let slots ← connectionsOf d
  if slots.count ≥ 65535 then
    pure 0
  else
    let used ← slots.elems.mapM fun c => do
      let conn ← getConn c
      pure conn.mux.sport
    let dev ← getDev d
    let port := nextFreePort used 65536 dev.nextSport
    modify fun w => w.setDev d { dev with nextSport := port + 1 }
    pure port

/-- The connection that `device_start_connect` makes. -/
def Conn.opened (env : Outside) (c d k : Ptr) (sport dport : U16) : Conn where
  dev := d
  client := some k
  mux :=
    { client := true, state := .connecting, sport := sport, dport := dport
      txSeq := 0, txAck := 0, txAcked := 0, txWin := 131072#32
      rxSeq := 0, rxRecvd := 0, rxAck := 0, rxWin := 0
      maxPayload := BitVec.ofNat 32 (usbMtu - sizeofMuxHeader - sizeofTcphdr)
      sendable := 0, ackPending := false
      ibBuf := (env.inBuf c).val, ibSize := 0, ibCapacity := BitVec.ofNat 32 connInbufSize
      obCapacity := BitVec.ofNat 32 connOutbufSize
      pollin := false, pollout := false, lastAckTime := 0 }

/-- `device_start_connect` with the device and the port. -/
def openConnection (env : Outside) (d k : Ptr) (sport dport : U16) : Handler Nat := do
  let w ← get
  let c := w.fresh
  modify fun w =>
    { w.setConn c (Conn.opened env c d k sport dport) with fresh := w.fresh + 1 }
  let sent ← sendTcp env c thSyn []
  if sent then
    let slots ← connectionsOf d
    let dev ← getDev d
    modify fun w => w.setDev d { dev with connections := some (slots.add c) }
    pure 0
  else
    modify fun w => { w with conns := update w.conns c none }
    pure resultConnrefused

/-- `device_start_connect`; the result is the error for the client, or 0. -/
def deviceStartConnect (env : Outside) (id : Nat) (dport : U16) (k : Ptr) : Handler Nat := do
  let d ← getMuxDeviceForId id
  match d with
  | none => pure resultBaddev
  | some d =>
    let sport ← findSport d
    if sport = 0 then
      pure resultBaddev
    else
      openConnection env d k sport dport

/-! ## Flags and masks -/

def updateConnection (c : Ptr) : Handler Unit := do
  let conn ← getConn c
  let mux := Usbmuxd.updateConnection conn.mux
  modify fun w => w.setConn c (conn.withMux mux)
  match conn.client with
  | none => throw .clientNull
  | some k => clientSetEvents k mux.pollin mux.pollout

def sendTcpAck (env : Outside) (c : Ptr) : Handler Unit := do
  let sent ← sendTcp env c thAck []
  if sent then updateConnection c else connectionTeardown env c

/-! ## Client socket events on a connection -/

/-- `client_write`: the number of bytes the socket took, if it took any. -/
def clientWrite (env : Outside) (k : Ptr) (buf : List UInt8) : Handler Nat := do
  let cl ← getClient k
  if cl.state ≠ .connected then
    pure 0
  else
    let w ← get
    match env.clientSend w.tick buf.length with
    | none => do
        modify World.asked
        pure 0
    | some size => do
        modify fun w => (w.asked).note k fun l =>
          { l with wire := l.wire ++ [Wire.raw (buf.take size.val)] }
        pure size.val

def clientRead (env : Outside) (k : Ptr) (len : Nat) : Handler (List UInt8) := do
  let cl ← getClient k
  if cl.state ≠ .connected then
    pure []
  else
    let w ← get
    modify World.asked
    match env.clientRecv w.tick len with
    | none => pure []
    | some data => pure data.val

/-- The in-buffer after `size` bytes of it went out. -/
def flushed (c : MuxConnection) (size : Nat) : MuxConnection :=
  if size = c.ibSize.toNat then
    { c with txAck := c.txAck + BitVec.ofNat 32 size, ibSize := 0 }
  else
    let left := c.ibSize - BitVec.ofNat 32 size
    { c with
      txAck := c.txAck + BitVec.ofNat 32 size
      ibSize := left
      ibBuf := memmove c.ibBuf 0 size left.toNat }

/-- The second half of `device_client_process`. -/
def clientReadable (env : Outside) (c k : Ptr) (pollin : Bool) : Handler Unit := do
  let conn ← getConn c
  if pollin ∧ 0 < conn.mux.sendable.toNat then
    let data ← clientRead env k conn.mux.sendable.toNat
    if data = [] then
      connectionTeardown env c
    else
      let sent ← sendTcp env c thAck data
      if sent then
        let conn ← getConn c
        modify fun w => w.setConn c
          (conn.withMux { conn.mux with txSeq := conn.mux.txSeq + BitVec.ofNat 32 data.length })
        updateConnection c
      else
        connectionTeardown env c
  else
    updateConnection c

/-- `device_client_process` with the connection that was found. -/
def processConnection (env : Outside) (c k : Ptr) (pollin pollout : Bool) : Handler Unit := do
  let conn ← getConn c
  if pollout ∧ 0 < conn.mux.ibSize.toNat then
    let size ← clientWrite env k conn.mux.ib
    if size = 0 then
      connectionTeardown env c
    else
      modify fun w => w.setConn c (conn.withMux (flushed conn.mux size))
      clientReadable env c k pollin
  else
    clientReadable env c k pollin

def deviceClientProcess (env : Outside) (id : Nat) (k : Ptr) (pollin pollout : Bool) :
    Handler Unit := do
  let c ← getMuxConnection id k
  match c with
  | none => pure ()
  | some c => processConnection env c k pollin pollout

/-! ## Segments from the device -/

/-- `device_tcp_input` in state `CONN_CONNECTING`. -/
def connectingInput (env : Outside) (c : Ptr) (conn : Conn) (th : Tcphdr) : Handler Unit := do
  if th.flags ≠ thSyn ||| thAck then
    modify fun w => w.setConn c (conn.withMux
      (if th.flags &&& thRst ≠ 0 then { conn.mux with state := .refused } else conn.mux))
    connectionTeardown env c
  else
    modify fun w => w.setConn c (conn.withMux conn.mux.synAcked)
    let sent ← sendTcp env c thAck []
    if !sent then
      connectionTeardown env c
    else
      let conn ← getConn c
      modify fun w => w.setConn c (conn.withMux { conn.mux with state := .connected })
      match conn.client with
      | none => throw .clientNull
      | some k =>
        let told ← clientNotifyConnect env k resultOk
        if !told then
          let conn ← getConn c
          modify fun w => w.setConn c { conn with client := none }
          connectionTeardown env c
          updateConnection c
        else
          updateConnection c

def connectionDeviceInput (env : Outside) (c : Ptr) (payload : List UInt8) : Handler Unit := do
  let conn ← getConn c
  let payloadLength := BitVec.ofNat 32 payload.length
  if conn.mux.ibSize + payloadLength > conn.mux.ibCapacity then
    connectionTeardown env c
  else
    modify fun w => w.setConn c (conn.withMux
      { conn.mux with
        ibBuf := memcpy conn.mux.ibBuf conn.mux.ibSize.toNat payload
        ibSize := conn.mux.ibSize + payloadLength
        rxRecvd := conn.mux.rxRecvd + payloadLength })
    updateConnection c

/-- `device_tcp_input` in state `CONN_CONNECTED`. -/
def connectedInput (env : Outside) (c : Ptr) (conn : Conn) (th : Tcphdr) (payload : List UInt8) :
    Handler Unit := do
  if th.flags ≠ thAck then
    modify fun w => w.setConn c (conn.withMux
      (if th.flags &&& thRst ≠ 0 then { conn.mux with state := .dying } else conn.mux))
    connectionTeardown env c
  else
    connectionDeviceInput env c payload
    sendTcpAck env c

/-- The connection has the ports of a segment. -/
def Conn.hasPorts (th : Tcphdr) (conn : Conn) : Bool :=
  conn.mux.sport = th.dport && conn.mux.dport = th.sport

/-- `device_tcp_input` where there is no connection for a segment. -/
def strayInput (env : Outside) (d : Ptr) (th : Tcphdr) : Handler Unit := do
  if th.flags &&& thRst = 0 then
    let sent ← sendAnonRst env d th.dport th.sport th.seq
    -- the message in the log has `conn->dev->id`
    if sent then pure () else throw .connNull
  else
    pure ()

def deviceTcpInput (env : Outside) (d : Ptr) (th : Tcphdr) (payload : List UInt8) :
    Handler Unit := do
  let dev ← getDev d
  if dev.state ≠ .active then
    pure ()
  else
    let slots ← connectionsOf d
    let c ← search World.conns .connFreed (Conn.hasPorts th) slots.elems
    match c with
    | none => strayInput env d th
    | some c =>
      let conn ← getConn c
      let seen := conn.withMux (conn.mux.seen th)
      modify fun w => w.setConn c seen
      match seen.mux.state with
      | .connecting => connectingInput env c seen th
      | .connected => connectedInput env c seen th payload
      | _ => pure ()

/-! ## Listeners -/

/-- The devices `device_get_list` reports. -/
def deviceGetList : Handler (List (Nat × Nat)) := do
  let w ← get
  let devs ← w.deviceList.elems.mapM getDev
  pure ((devs.filter fun dev => dev.state = .active && dev.visible).map fun dev =>
    (dev.id, dev.usbdev))

/-- The loop of `start_listen`. -/
def announceAll (env : Outside) (k : Ptr) : List (Nat × Nat) → Handler Unit
  | [] => pure ()
  | info :: infos => do
      let sent ← notifyDeviceAdd env k info.1 info.2
      if sent then announceAll env k infos else pure ()

def startListen (env : Outside) (k : Ptr) : Handler Unit := do
  let cl ← getClient k
  modify fun w => w.setClient k { cl with state := .listen }
  let infos ← deviceGetList
  announceAll env k infos

def deviceSetVisible (id : Nat) : Handler Unit := do
  lockDevices
  let w ← get
  let d ← search World.devices .deviceFreed (fun dev => dev.id = id) w.deviceList.elems
  match d with
  | none => unlockDevices
  | some d => do
      let dev ← getDev d
      modify fun w => w.setDev d { dev with visible := true }
      unlockDevices

/-- A FOREACH loop over `client_list` that works on the clients that listen. -/
def forListeners (body : Ptr → Handler Bool) : Handler Unit := do
  let w ← get
  w.clientList.elems.forM fun k => do
    let cl ← getClient k
    if cl.state = .listen then
      let _ ← body k
      pure ()
    else
      pure ()

def clientDeviceAdd (env : Outside) (id usbdev : Nat) : Handler Unit := do
  lockClients
  deviceSetVisible id
  forListeners fun k => notifyDeviceAdd env k id usbdev
  unlockClients

def clientDeviceRemove (env : Outside) (id : Nat) : Handler Unit := do
  lockClients
  forListeners fun k => notifyDeviceRemove env k id
  unlockClients

/-! ## Devices -/

/-- The loop of `get_next_device_id`. -/
def nextFreeId (used : List Nat) : Nat → Nat → Nat
  | 0, id => id
  | fuel + 1, id => if id ∈ used then nextFreeId used fuel (id + 1) else id

def getNextDeviceId : Handler Nat := do
  lockDevices
  let w ← get
  let devs ← w.deviceList.elems.mapM getDev
  unlockDevices
  let id := nextFreeId (devs.map Device.id) devs.length w.nextDeviceId
  modify fun w => { w with nextDeviceId := id + 1 }
  pure id

/-- `device_add`; `zeroed` says that `malloc` gave memory with zeros. -/
def deviceAdd (env : Outside) (usbdev : Nat) (zeroed : Bool) : Handler Unit := do
  let id ← getNextDeviceId
  let w ← get
  let d := w.fresh
  modify fun w =>
    { w.setDev d
        ⟨id, usbdev, .init, 0, false, if zeroed then some [] else none, false, 1⟩ with
      fresh := w.fresh + 1 }
  let sent ← sendPacket env d .version (.version 2 0) []
  if sent then
    lockDevices
    modify fun w => { w with deviceList := w.deviceList.add d }
    unlockDevices
  else
    modify fun w => { w with devices := update w.devices d none }

/-- `preflight_worker_device_add`: without a thread the device is announced at once. -/
def preflightWorkerDeviceAdd (env : Outside) (id usbdev : Nat) : Handler Unit := do
  let w ← get
  modify World.asked
  if env.thread w.tick then pure () else clientDeviceAdd env id usbdev

def deviceVersionInput (env : Outside) (d : Ptr) (major : Nat) : Handler Unit := do
  let dev ← getDev d
  if dev.state ≠ .init then
    pure ()
  else if major ≠ 2 ∧ major ≠ 1 then
    lockDevices
    modify fun w => { w with deviceList := w.deviceList.remove d }
    unlockDevices
    modify fun w => { w with devices := update w.devices d none }
  else
    modify fun w => w.setDev d { dev with version := major }
    if 2 ≤ major then
      let _ ← sendPacket env d .setup .none [7]
      pure ()
    else
      pure ()
    modify fun w => w.setDev d
      { dev with
        version := major, state := .active, connections := some Collection.init, ready := true }
    preflightWorkerDeviceAdd env dev.id dev.usbdev

/-- A whole mux packet. -/
inductive Packet where
  | version (major : Nat)
  | tcp (th : Tcphdr) (payload : {p : List UInt8 // p.length ≤ devMru})
  /-- A control packet, or one of an unknown protocol. -/
  | other

/-- `device_data_input` with the device that was found: `rx_seq`, and the `switch`. -/
def dispatch (env : Outside) (d : Ptr) (rxSeq : U16) (packet : Packet) : Handler Unit := do
  let dev ← getDev d
  modify fun w =>
    if 2 ≤ dev.version then
      { w with seqs := update w.seqs d (rxSeq, (w.seqs d).2) }
    else
      w
  match packet with
  | .version major => deviceVersionInput env d major
  | .tcp th payload => deviceTcpInput env d th payload.val
  | .other => pure ()

/-- `device_data_input`, from a whole packet on. -/
def deviceDataInput (env : Outside) (usbdev : Nat) (rxSeq : U16) (packet : Packet) :
    Handler Unit := do
  lockDevices
  let w ← get
  let d ← search World.devices .deviceFreed (fun dev => dev.usbdev = usbdev) w.deviceList.elems
  unlockDevices
  match d with
  | none => pure ()
  | some d => dispatch env d rxSeq packet

/-- `device_remove` with the device that was found: the connections and the listeners of an
active device. -/
def retireDevice (env : Outside) (d : Ptr) : Handler Unit := do
  let dev ← getDev d
  if dev.state = .active then
    modify fun w => w.setDev d { dev with state := .dead }
    forEachConn d (connectionTeardown env)
    clientDeviceRemove env dev.id
    let dev ← getDev d
    modify fun w => w.setDev d { dev with connections := some [] }
  else
    pure ()

def deviceRemove (env : Outside) (usbdev : Nat) : Handler Unit := do
  lockDevices
  let w ← get
  let d ← search World.devices .deviceFreed (fun dev => dev.usbdev = usbdev) w.deviceList.elems
  match d with
  | none => unlockDevices
  | some d => do
      retireDevice env d
      modify fun w => { w with deviceList := w.deviceList.remove d }
      unlockDevices
      modify fun w => { w with devices := update w.devices d none }

/-- The body of the inner loop of `device_check_timeouts`, at time `ct`. -/
def checkTimeout (env : Outside) (ct : BitVec 64) (c : Ptr) : Handler Unit := do
  let conn ← getConn c
  if conn.mux.state = .connected ∧ conn.mux.ackPending ∧
      (ct - conn.mux.lastAckTime).toNat > ackTimeout then
    sendTcpAck env c
  else
    pure ()

def deviceCheckTimeouts (env : Outside) : Handler Unit := do
  let w ← get
  modify World.asked
  lockDevices
  w.deviceList.elems.forM fun d => do
    let dev ← getDev d
    if dev.state = .active then
      forEachConn d (checkTimeout env (env.mstime64 w.tick))
    else
      pure ()
  unlockDevices

/-- The reading of all connections in `device_get_timeout`, and of all clients in
`client_get_fds`. -/
def pollSources : Handler Unit := do
  lockDevices
  let w ← get
  w.deviceList.elems.forM fun d => do
    let dev ← getDev d
    if dev.state = .active then
      forEachConn d fun c => do
        let _ ← getConn c
        pure ()
    else
      pure ()
  unlockDevices
  lockClients
  w.clientList.elems.forM fun k => do
    let _ ← getClient k
    pure ()
  unlockClients

/-! ## Commands -/

/-- The `uint32_t` at `off`. -/
def le32At (buf : List UInt8) (off : Nat) : Nat := leVal ((buf.drop off).take 4)

def ntohs (p : U16) : U16 := (p <<< 8) ||| (p >>> 8)

/-- A connect request, from a plist or not. -/
def connectCommand (env : Outside) (k : Ptr) (tag id : Nat) (dport : U16) : Handler Unit := do
  let res ← deviceStartConnect env id dport k
  if res = 0 then
    let cl ← getClient k
    modify fun w => w.setClient k
      { cl with connectTag := tag, connectDevice := id, state := .connecting1 }
  else
    let _ ← sendResult env k tag res
    pure ()

/-- A listen request, from a plist or not. -/
def listenCommand (env : Outside) (k : Ptr) (tag : Nat) : Handler Unit := do
  let sent ← sendResult env k tag 0
  if sent then startListen env k else pure ()

/-- A request that is answered by one packet, whether it can be queued or not. -/
def answer (reply : Handler Bool) : Handler Unit := do
  let _ ← reply
  pure ()

/-- `client_command` for a `MESSAGE_PLIST`, once the plist has been read. -/
def plistCommand (env : Outside) (k : Ptr) (tag : Nat) : PlistRequest → Handler Unit
  | .unreadable => pure ()
  | .listen => listenCommand env k tag
  | .connect none _ => answer (sendResult env k tag resultBaddev)
  | .connect (some _) none => answer (sendResult env k tag resultBadcommand)
  | .connect (some id) (some portnum) => connectCommand env k tag id (ntohs portnum)
  | .listDevices => do
      let infos ← deviceGetList
      answer (sendPlistPkt env k tag (.deviceList infos))
  | .readBuid => answer (sendPlistPkt env k tag .buid)
  | .readPairRecord none => answer (sendResult env k tag einval)
  | .readPairRecord (some id) => do
      let w ← get
      match env.readRecord w.tick id with
      | some data => answer (sendPlistPkt env k tag (.pairRecord data))
      | none => answer (sendResult env k tag enoent)
  | .savePairRecord (some id) (some data) => do
      let w ← get
      answer (sendResult env k tag (env.saveRecord w.tick id data))
  | .savePairRecord _ _ => answer (sendResult env k tag einval)
  | .deletePairRecord (some id) => do
      let w ← get
      answer (sendResult env k tag (env.removeRecord w.tick id))
  | .deletePairRecord none => answer (sendResult env k tag einval)
  | .unexpected => answer (sendResult env k tag resultBadcommand)

/-- `client_command` for a client that waits for one; `buf` is `ib_buf`. -/
def runCommand (env : Outside) (k : Ptr) (buf : List UInt8) : Handler Unit := do
  let tag := le32At buf 12
  if le32At buf 4 ≠ 0 ∧ le32At buf 4 ≠ 1 then
    answer (sendResult env k tag resultBadversion)
  else if le32At buf 8 = messagePlist then
    let cl ← getClient k
    modify fun w => w.setClient k { cl with protoVersion := 1 }
    plistCommand env k tag (env.plistRequest
      ((buf.drop sizeofUsbmuxdHeader).take (hdrLength buf - sizeofUsbmuxdHeader)))
  else if le32At buf 8 = messageListen then
    listenCommand env k tag
  else if le32At buf 8 = messageConnect then
    connectCommand env k tag (le32At buf 16)
      (ntohs (BitVec.ofNat 16 (leVal ((buf.drop 20).take 2))))
  else
    answer (sendResult env k tag resultBadcommand)

def clientCommand (env : Outside) (k : Ptr) (buf : List UInt8) : Handler Unit := do
  let cl ← getClient k
  if cl.state ≠ .command then
    let sent ← sendResult env k (le32At buf 12) resultBadcommand
    if sent then clientClose env k else pure ()
  else
    runCommand env k buf

/-! ## Client socket events -/

/-- `process_recv` where `ib_buf` is `NULL`: `recv` fails, and a header cannot be read. -/
def recvNull (env : Outside) (k : Ptr) (cl : Client) : Handler Unit :=
  if cl.ib.length < sizeofUsbmuxdHeader then clientClose env k else throw .bufferNull

def processRecv (env : Outside) (k : Ptr) : Handler Unit := do
  let cl ← getClient k
  if cl.ibNull then
    recvNull env k cl
  else
    let w ← get
    modify World.asked
    match takeMessage (fun len => (env.clientRecv w.tick len).map Subtype.val) cl.ib with
    | .closed => clientClose env k
    | .waiting ib => modify fun w => w.setClient k { cl with ib := ib }
    | .message ib => do
        modify fun w => w.setClient k { cl with ib := ib }
        clientCommand env k (ib ++ env.stale w.tick)
        let cl ← getClient k
        modify fun w => w.setClient k { cl with ib := [] }

/-- The ledger of a client whose socket took `out`. -/
def Ledger.wrote (l : Ledger) (out : List UInt8) (drained : Bool) : Ledger :=
  { l with
    wire := l.wire ++ [Wire.reply out]
    obFrees := if drained then l.obFrees + 1 else l.obFrees }

def processSend (env : Outside) (k : Ptr) : Handler Unit := do
  let cl ← getClient k
  let w ← get
  modify World.asked
  match cl.processSend (fun len => (env.clientSend w.tick len).map Fin.val) with
  | none => clientClose env k
  | some (cl', bytes) => modify fun w =>
    (w.setClient k cl').note k fun l => l.wrote bytes (!cl.obNull && cl'.obNull)

/-- `client_accept` with the descriptor that `accept` gave, which is none that is open. -/
def clientAccept (fd : Nat) : Handler Unit := do
  let w ← get
  let cls ← w.clientList.elems.mapM getClient
  if fd ∈ cls.map Client.fd then
    pure ()
  else
    let k := w.fresh
    modify fun w =>
      { (w.setClient k (Client.accepted fd)).note k (fun l => { l with accepted := true }) with
        fresh := w.fresh + 1 }
    lockClients
    modify fun w => { w with clientList := w.clientList.add k }
    unlockClients

def clientProcess (env : Outside) (fd : Nat) (pollin pollout : Bool) : Handler Unit := do
  lockClients
  let w ← get
  let k ← search World.clients .clientFreed (fun cl => cl.fd = fd) w.clientList.elems
  unlockClients
  match k with
  | none => pure ()
  | some k =>
    let cl ← getClient k
    if cl.state = .connected then
      deviceClientProcess env cl.connectDevice k pollin pollout
    else if pollin then
      processRecv env k
    else if pollout then
      processSend env k
    else
      pure ()

/-! ## Runs -/

/-- What reaches the daemon. -/
inductive Event where
  | deviceAdd (usbdev : Nat) (zeroed : Bool)
  | deviceRemove (usbdev : Nat)
  | packet (usbdev : Nat) (rxSeq : U16) (packet : Packet)
  | checkTimeouts
  | poll
  | accept (fd : Nat)
  | client (fd : Nat) (pollin pollout : Bool)
  /-- The preflight of a device is done. -/
  | announce (id usbdev : Nat)

/-- The handler of an event. -/
def handle (env : Outside) : Event → Handler Unit
  | .deviceAdd usbdev zeroed => deviceAdd env usbdev zeroed
  | .deviceRemove usbdev => deviceRemove env usbdev
  | .packet usbdev rxSeq packet => deviceDataInput env usbdev rxSeq packet
  | .checkTimeouts => deviceCheckTimeouts env
  | .poll => pollSources
  | .accept fd => clientAccept fd
  | .client fd pollin pollout => clientProcess env fd pollin pollout
  | .announce id usbdev => clientDeviceAdd env id usbdev

def step (env : Outside) (w : World) (e : Event) : Except Fault World := after (handle env e) w

/-- The daemon, from its start on. -/
def run (env : Outside) (events : List Event) : Except Fault World :=
  runAll (step env) World.start events

end IDeviceStack.Usbmuxd.Daemon
