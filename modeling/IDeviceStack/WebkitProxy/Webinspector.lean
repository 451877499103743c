/-
# `WebkitProxy.Webinspector` — messages of the web inspector

`webinspector.c` of the proxy.  A message is a binary plist.  To a device it goes
in pieces, each wrapped into a plist of its own under `WIRPartialMessageKey` or, the
last one, `WIRFinalMessageKey`; to a simulator it goes as it is.  A packet is a
length of four bytes and a body.

* `plist_to_bin` and `plist_from_bin` are those of `Libplist.Bplist`.  The wrapper
  is the tree that `plist_dict_set_item` makes of an empty dictionary; its nodes are
  at three addresses.
* `plist_to_bin` reports the length of a file as `uint32_t`; longer files are not
  meant here.
* The callbacks are in the environment.  `calls` is what they were called with; that
  `plist_from_bin` was asked for the message is an entry too.
* A copy outside of a block ends the program: `crashed`.
-/
import IDeviceStack.Libplist.Bplist.Roundtrip
import IDeviceStack.WebkitProxy.CharBuffer

namespace IDeviceStack.WebkitProxy

open Lib Libplist Libplist.Bplist

/-- `MAX_RPC_LEN`, which stands without brackets in the source and never next to a product. -/
def maxRpcLen : Nat := 8096 - 500

def maxBodyLength : Nat := 1 <<< 24

/-- The messages of `on_error`, with their arguments. -/
inductive WiError where
  | invalidPacketHeader (header : List UInt8) (length : Nat)
  | invalidPacketSize (bodyLength length : Nat)
  | invalidPacket (packet : List UInt8)
  | outOfMemory
  | beginInputBuffer
  | endInputBuffer

inductive WiCall where
  /-- `plist_from_bin` on a message, and its result. -/
  | fromBin (bytes : List UInt8) (rpcDict : Option Plist)
  | recvPlist (rpcDict : Plist)
  | onError (e : WiError)

/-- `struct wi_private`, but for `in`. -/
structure Wi where
  isSim : Bool
  partialBuf : Cb
  hasLength : Bool
  bodyLength : Nat
  crashed : Bool
  calls : List WiCall

/-- The machine, the build and the callbacks. -/
structure WiEnv where
  machine : Machine
  build : Build
  narrow : Narrow
  widen : Nat → Nat
  /-- The address of a buffer that `plist_from_bin` reads. -/
  base : Nat
  base_lt : base < 2 ^ 63
  /-- The addresses of the nodes of the wrappers. -/
  nodes : Nat → Fin 3 → Nat
  nodes_inj : ∀ i, Function.Injective (nodes i)
  /-- `send_packet` and `recv_plist` succeed. -/
  sendPacket : List UInt8 → Bool
  recvPlist : Plist → Bool

def Wi.call (my : Wi) (c : WiCall) : Wi := { my with calls := my.calls ++ [c] }

/-- The bytes of a string constant. -/
def ascii (s : String) : List UInt8 := s.toList.map fun c => UInt8.ofNat c.toNat

def wirPartialMessageKey : List UInt8 := ascii "WIRPartialMessageKey"
def wirFinalMessageKey : List UInt8 := ascii "WIRFinalMessageKey"

/-! ## Sending -/

def wirKey (isPartial : Bool) : List UInt8 :=
  if isPartial then wirPartialMessageKey else wirFinalMessageKey

/-- `wi_dict` with `wi_rpc` in it, for the chunk with number `i`. -/
def wiDict (env : WiEnv) (i : Nat) (isPartial : Bool) (rpc : List UInt8) : Node :=
  .dict (env.nodes i 0) [.scalar (env.nodes i 1) (.key (wirKey isPartial)) (wirKey isPartial).length,
    .scalar (env.nodes i 2) (.data rpc) rpc.length]

/-- A length, big-endian, and the data. -/
def wiPacket (data : List UInt8) : List UInt8 := beBytes 4 data.length ++ data

inductive SendStatus where
  | success
  | error
  /-- `data_len + 4` has wrapped, and the packet is written past its block. -/
  | crash
  deriving DecidableEq

/-- The loop of `wi_send_plist`, with the packets it sends; `rest` is what `rpc_bin + i` has left. -/
def wiSendLoop (env : WiEnv) (isSim : Bool) : Nat → Nat → List UInt8 → List (List UInt8) × SendStatus
  | 0, _, _ => ([], .error)
  | fuel + 1, i, rest =>
    let isPartial := !isSim && decide (rest.length > maxRpcLen)
    let rpc := if isPartial then rest.take maxRpcLen else rest
    let data? :=
      if isSim then some rest else plistToBin env.build env.narrow (wiDict env i isPartial rpc)
    match data? with
    | none => ([], .error)
    | some data =>
      if ¬ env.machine.grants ((data.length + 4) % 2 ^ 32) then ([], .error)
      else if 2 ^ 32 ≤ data.length + 4 then ([], .crash)
      else if ¬ env.sendPacket (wiPacket data) then ([], .error)
      else if isPartial then
        let (packets, status) := wiSendLoop env isSim fuel (i + 1) (rest.drop maxRpcLen)
        (wiPacket data :: packets, status)
      else ([wiPacket data], .success)

def wiSendPlist (env : WiEnv) (isSim : Bool) (rpcDict : Node) : List (List UInt8) × SendStatus :=
  let rpcBin := (plistToBin env.build env.narrow rpcDict).getD []
  wiSendLoop env isSim (rpcBin.length + 1) 0 rpcBin

/-! ## Receiving -/

/-- `wi_parse_length`.  The shift is one of `int`, so that a length with its top bit set is extended
with its sign. -/
def wiParseLength (m : Machine) (buf : List UInt8) : Nat × Option WiError :=
  let value := beVal (buf.take 4)
  let length := if value < 2 ^ 31 then value else value + 2 ^ m.bits - 2 ^ 32
  if length > maxBodyLength then (length, some (.invalidPacketHeader (buf.take 4) length))
  else (length, none)

/-- `plist_from_bin`, `none` for `NULL`. -/
def fromBin (env : WiEnv) (bytes : List UInt8) : Option Plist :=
  match plistFromBin ⟨.machine, env.build, ⟨env.base, bytes⟩, env.widen⟩ (bytes.length + 1) with
  | .ok (plist, _) => plist
  | .error _ => none

/-- The loop of `plist_dict_get_item`. -/
def scanPairs (key : List UInt8) : List Plist → Option Plist
  | .scalar (.key s) _ :: value :: rest => if streq key s then some value else scanPairs key rest
  | _ => none

def dictGetItem (plist : Plist) (key : List UInt8) : Option Plist :=
  match plist with
  | .dict children => scanPairs key children
  | _ => none

/-- `plist_get_data_val`. -/
def getDataVal (plist : Plist) : Option (List UInt8) :=
  match plist with
  | .scalar (.data buff) length => some (buff.take length)
  | _ => none

/-- The outcome of `wi_parse_plist`. -/
inductive WiParse where
  | error
  | crash
  | isPartial
  | rpc (rpcDict : Plist)

/-- The last lines of `wi_parse_plist`. -/
def parseMessage (env : WiEnv) (my : Wi) (bytes : List UInt8) : Wi × WiParse :=
  let my := my.call (.fromBin bytes (fromBin env bytes))
  match fromBin env bytes with
  | some rpcDict => (my, .rpc rpcDict)
  | none => (my, .error)

/-- `wi_parse_plist` on a device, once the chunk is out of its wrapper. -/
def parseChunk (env : WiEnv) (my : Wi) (isPartial : Bool) (rpcBin : List UInt8) : Wi × WiParse :=
  let pLength := my.partialBuf.tail - my.partialBuf.head
  if isPartial ∨ pLength ≠ 0 then
    match cbEnsureCapacity env.machine my.partialBuf rpcBin.length with
    | (buf, false) => ({ my with partialBuf := buf }.call (.onError .outOfMemory), .error)
    | (buf, true) =>
      if buf.block.length < buf.tail + rpcBin.length then (my, .crash)
      else
        let my := { my with partialBuf := buf.put rpcBin }
        if isPartial then (my, .isPartial)
        else
          let (my, outcome) := parseMessage env my my.partialBuf.content
          ({ my with partialBuf := cbClear my.partialBuf }, outcome)
  else parseMessage env my rpcBin

def wiParsePlist (env : WiEnv) (my : Wi) (body : List UInt8) : Wi × WiParse :=
  if my.isSim then parseMessage env my body
  else
    match fromBin env body with
    | none => (my, .error)
    | some wiDict =>
      match dictGetItem wiDict wirFinalMessageKey with
      | some wiRpc =>
        match getDataVal wiRpc with
        | none => (my, .error)
        | some rpcBin => parseChunk env my false rpcBin
      | none =>
        match dictGetItem wiDict wirPartialMessageKey with
        | none => (my, .error)
        | some wiRpc =>
          match getDataVal wiRpc with
          | none => (my, .error)
          | some rpcBin => parseChunk env my true rpcBin

/-- The complaint about a packet. -/
def invalidPacket (bodyLength : Nat) (packet : List UInt8) : WiCall :=
  .onError (if bodyLength ≠ packet.length - 4 then .invalidPacketSize bodyLength packet.length
    else .invalidPacket packet)

/-- `wi_recv_packet` after `wi_parse_plist`, and whether it succeeds. -/
def afterParse (env : WiEnv) (length : Nat) (packet : List UInt8) : Wi × WiParse → Wi × Bool
  | (my, .error) => (my.call (invalidPacket length packet), false)
  | (my, .crash) => ({ my with crashed := true }, false)
  | (my, .isPartial) => (my, true)
  | (my, .rpc rpcDict) => (my.call (.recvPlist rpcDict), env.recvPlist rpcDict)

def wiRecvPacket (env : WiEnv) (my : Wi) (packet : List UInt8) : Wi × Bool :=
  if packet.length < 4 then (my.call (invalidPacket 0 packet), false)
  else
    match wiParseLength env.machine packet with
    | (length, some e) => ((my.call (.onError e)).call (invalidPacket length packet), false)
    | (length, none) =>
      afterParse env length packet (wiParsePlist env my ((packet.drop 4).take length))

/-- With the length of the next packet read, and with a packet done. -/
def Wi.expecting (my : Wi) (length : Nat) : Wi := { my with bodyLength := length, hasLength := true }

def Wi.done (my : Wi) : Wi := { my with hasLength := false, bodyLength := 0 }

/-- The first branch of `wi_recv_loop`, after `wi_parse_length`. -/
def lengthTurn (my : Wi) : Nat × Option WiError → Turn Wi
  | (_, some e) => .halt (my.call (.onError e)) 4
  | (length, none) => .go (my.expecting length) 0

/-- The second branch, after `wi_recv_packet`. -/
def packetTurn (bodyLength : Nat) : Wi × Bool → Turn Wi
  | (my, true) => .go my.done (bodyLength + 4)
  | (my, false) => .halt my.done (bodyLength + 4)

/-- One turn of the `while` in `wi_recv_loop`. -/
def wiRecvTurn (env : WiEnv) (my : Wi) (u : List UInt8) : Turn Wi :=
  if my.crashed then .wait my
  else if ¬ my.hasLength ∧ 4 ≤ u.length then lengthTurn my (wiParseLength env.machine u)
  else if my.hasLength ∧ my.bodyLength + 4 ≤ u.length then
    packetTurn my.bodyLength (wiRecvPacket env my (u.take (my.bodyLength + 4)))
  else .wait my

/-- A length is read before its packet. -/
def wiRank (my : Wi) (u : List UInt8) : Nat := 2 * u.length + if my.hasLength then 0 else 1

def wiRecvLoop (env : WiEnv) (my : Wi) (u : List UInt8) : Wi × List UInt8 :=
  drainAll (wiRecvTurn env) wiRank my u

/-- `wi_on_recv`; the second component is `in`. -/
def wiOnRecv (env : WiEnv) (w : Wi × Cb) (buf : List UInt8) : Wi × Cb :=
  if buf.isEmpty then w
  else
    match cbBeginInput env.machine w.2 buf with
    | (cb, false) => (w.1.call (.onError .beginInputBuffer), cb)
    | (cb, true) =>
      let (my, rest) := wiRecvLoop env w.1 cb.input
      match cbEndInput env.machine { cb with input := rest } with
      | (cb, false) => (my.call (.onError .endInputBuffer), cb)
      | (cb, true) => (my, cb)

/-- The messages that were put together, and the plists that were delivered. -/
def reassembled (calls : List WiCall) : List (List UInt8) :=
  calls.filterMap fun c => match c with | .fromBin bytes _ => some bytes | _ => none

def delivered (calls : List WiCall) : List Plist :=
  calls.filterMap fun c => match c with | .recvPlist rpcDict => some rpcDict | _ => none

end IDeviceStack.WebkitProxy
