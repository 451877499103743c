/-
# `WebkitProxy.Iwdp` — the objects of the proxy

The data of `ios_webkit_debug_proxy.c`: browser ports, inspectors, pages, websocket
clients and connections to a file server, the pointers between them, and the tables
of `socket_manager.c` that find them by their descriptor.

* Objects live in heaps, one for each `struct`.  `free` takes an object out, and no
  pointer is given twice, so a stale pointer is one that finds nothing: a handler
  that follows it stops with a `Fault`.  So does one that follows `NULL`.
* A hash table is a finite map; the order in which `ht_keys` and `ht_values` list it is
  that of the entries, not that of the buckets.
* What the handlers link is the `Graph`.  The protocol state of a websocket, `iws->ws`,
  is an object of its own.
* The system gives descriptors that are not open, and not 0, which is standard input.
* `Out` is what leaves the proxy, with two marks of what it is for.  The code does not
  read it.
* Left out are the texts for `stdout` and `stderr`, with `iwi->connected`, which is only
  for them; `device_name`; and memory that `malloc` does not give, but for the buffers of
  a websocket.
-/
import IDeviceStack.Lib.Fault
import IDeviceStack.WebkitProxy.Handshake
import Mathlib.Data.Finset.Max
import Mathlib.Data.List.AList
import Mathlib.Logic.Function.Basic
import Mathlib.Order.Lattice.Nat

namespace IDeviceStack.WebkitProxy.Iwdp

open Lib Libplist Function

/-! ## Objects -/

/-- The address of an object. -/
abbrev Ptr := Nat

/-- A C string, without its terminator. -/
abbrev Str := List UInt8

/-- A hash table of pointers. -/
abbrev Table (κ : Type) [DecidableEq κ] := AList fun _ : κ => Ptr

/-- `ht_values`. -/
def Table.values {κ : Type} [DecidableEq κ] (t : Table κ) : List Ptr := t.entries.map Sigma.snd

/-- `struct rpc_app_struct`. -/
structure RpcApp where
  appId : Str
  appName : Option Str
  isProxy : Bool
  deriving DecidableEq

/-- `struct iwdp_iport_struct`; an `s_fd` of 0 is also one of -1. -/
structure Iport where
  port : Int
  sFd : Nat
  isSticky : Bool
  wsIdToIws : Table Str
  deviceId : Option Str
  iwi : Option Ptr

/-- `struct iwdp_iwi_struct`. -/
structure Iwi where
  iport : Option Ptr
  wiFd : Nat
  connectionId : Option Str
  app : Option RpcApp
  maxPageNum : Nat
  appIdToTrue : AList fun _ : Str => Unit
  pageNumToIpage : Table Nat

/-- `struct iwdp_iws_struct`, but for `ws`. -/
structure Iws where
  iport : Ptr
  wsFd : Nat
  wsId : Str
  pageNum : Nat
  ipage : Option Ptr
  ifs : Option Ptr

/-- `struct iwdp_ifs_struct`. -/
structure Ifs where
  iws : Option Ptr
  fsFd : Nat

/-- `struct iwdp_ipage_struct`. -/
structure Ipage where
  pageNum : Nat
  appId : Str
  pageId : Nat
  connectionId : Option Str
  title : Option Str
  url : Option Str
  senderId : Option Str
  iws : Option Ptr

/-- What `fd_to_value` holds, tagged by `type`. -/
inductive Value where
  /-- The device listener, of which there is one. -/
  | idl
  | iport (p : Ptr)
  | iwi (i : Ptr)
  | iws (s : Ptr)
  | ifs (f : Ptr)
  deriving DecidableEq

structure Graph where
  iports : Ptr → Option Iport
  iwis : Ptr → Option Iwi
  iwss : Ptr → Option Iws
  ifss : Ptr → Option Ifs
  ipages : Ptr → Option Ipage
  deviceIdToIport : Table (Option Str)
  fdToValue : Nat → Option Value
  allFds : Finset Nat
  /-- The next pointer that `malloc` gives. -/
  fresh : Ptr

inductive Fault where
  | iportFreed
  | iwiFreed
  | iwsFreed
  | ifsFreed
  | ipageFreed
  /-- `ipage->iws` or `ifs->iws` was freed. -/
  | ownerFreed
  | clientFreed
  | null
  /-- `strdup` or `std::string` of `NULL`. -/
  | noString
  /-- An `assert` of libplist. -/
  | assertion
  /-- `sm_remove_fd` for a descriptor that is being removed. -/
  | reentered
  /-- `sm_remove_fd` inside of itself, four times. -/
  | depth
  /-- A write behind the end of a local array, or of a buffer. -/
  | overrun
  /-- `exit`. -/
  | exited
  deriving DecidableEq, Repr

/-- The messages to an inspector. -/
inductive Rpc where
  | reportIdentifier (connectionId : Str)
  | forwardGetListing (connectionId appId : Str)
  | forwardSocketSetup (connectionId appId : Str) (pageId : Nat) (senderId : Str)
  | forwardSocketData (connectionId appId : Str) (pageId : Nat) (senderId data : Str)
  | forwardDidClose (connectionId appId : Str) (pageId : Nat) (senderId : Str)
  deriving DecidableEq

inductive Out where
  /-- Bytes for a browser or for a file server, and whether `send` took them. -/
  | sent (fd : Nat) (bytes : List UInt8) (ok : Bool)
  /-- A message for the inspector `i`. -/
  | rpc (i : Ptr) (rpc : Rpc) (ok : Bool)
  /-- `ht_put` on `app_id_to_true`. -/
  | known (i : Ptr) (appId : Str)
  /-- A listing of an application that is not in `app_id_to_true`. -/
  | unknown (i : Ptr) (appId : Str)
  deriving DecidableEq

structure World where
  graph : Graph
  /-- `iws->ws`. -/
  ws : Ptr → WsConn
  /-- The number of questions asked of the outside. -/
  tick : Nat
  out : List Out

def Graph.empty : Graph where
  iports := fun _ => none
  iwis := fun _ => none
  iwss := fun _ => none
  ifss := fun _ => none
  ipages := fun _ => none
  deviceIdToIport := ∅
  fdToValue := fun _ => none
  allFds := ∅
  fresh := 0

/-- The proxy after `iwdp_new` and `sm_new`. -/
def World.start : World := ⟨.empty, fun _ => wsPrivateNew, 0, []⟩

abbrev Handler (α : Type) := Prog World Fault α

/-! ## The world outside -/

/-- What `open`, `fstat` and `read` find under a path. -/
inductive Static where
  /-- No file, and whether there is one with `.qrc`. -/
  | missing (isQrc : Bool)
  | notFile
  /-- `st_size`, the type, and what `read` gives. -/
  | file (length : Nat) (ctype : Option Str) (reads : List (List UInt8))

/-- What `wi_connect` gives. -/
inductive Attach where
  | failed
  /-- A connection, and whether the name and the model of the device came with it. -/
  | connected (names : Bool)

/-- The answers of the world outside; most depend on the number of the question. -/
structure Outside where
  machine : Machine
  /-- The bits of a `long`. -/
  longBits : Nat
  longBits_eq : longBits = 32 ∨ longBits = 64
  /-- What stands in memory behind the input. -/
  beyond : List UInt8
  /-- A new descriptor, given those that are in use. -/
  socket : Nat → Finset Nat → Nat
  socket_pos : ∀ n used, 0 < socket n used
  socket_unused : ∀ n used, socket n used ∉ used
  /-- `rpc_new_uuid`. -/
  uuid : Nat → Str
  /-- `self->send` succeeds. -/
  sends : Nat → Bool
  /-- `self->select_port`: the port and the range, or an error. -/
  selectPort : Nat → Option Str → Int → Option (Int × Int × Int)
  /-- `self->listen` and `self->connect` succeed. -/
  listens : Nat → Int → Bool
  connects : Nat → Str → Int → Bool
  attach : Nat → Str → Attach
  subscribes : Nat → Bool
  /-- `my->frontend`. -/
  frontend : Option Str
  openFile : Nat → Str → Static
  /-- `iwdp_ipages_to_text` and `iwdp_iports_to_text`. -/
  listText : Nat → Bool → Option Str → Str
  /-- `isDeviceBusy` and `hasError` of the device manager. -/
  isBusy : Nat → Bool
  hasError : Nat → Bool
  /-- `ws_compute_answer`. -/
  answer : Str → Str
  /-- `strdup(NULL)` is `NULL`, as in the library of Windows. -/
  strdupNull : Bool

/-- A machine of 64 bits where everything succeeds, and a descriptor is the next one. -/
def Outside.generous : Outside where
  machine := .generous
  longBits := 64
  longBits_eq := Machine.generous.bits_eq
  beyond := []
  socket _ used := used.sup id + 1
  socket_pos _ _ := Nat.succ_pos _
  socket_unused _ _ h := Nat.not_succ_le_self _ (Finset.le_sup (f := id) h)
  uuid n := ascii (toString n)
  sends _ := true
  selectPort _ _ _ := some (-1, 9222, 9322)
  listens _ _ := true
  connects _ _ _ := true
  attach _ _ := .connected true
  subscribes _ := true
  frontend := none
  openFile _ _ := .missing false
  listText _ _ _ := []
  isBusy _ := false
  hasError _ := false
  answer key := key
  strdupNull := true

/-- The number of a question. -/
def ask : Handler Nat := do
  let w ← get
  modify fun w => { w with tick := w.tick + 1 }
  pure w.tick

/-- A new descriptor. -/
def newFd (env : Outside) : Handler Nat := do
  let n ← ask
  let w ← get
  pure (env.socket n w.graph.allFds)

/-! ## Following pointers -/

section Heap

variable {α : Type}

def follow (heap : Graph → Ptr → Option α) (gone : Fault) (p : Ptr) : Handler α := do
  let w ← get
  match heap w.graph p with
  | some a => pure a
  | none => throw gone

end Heap

def getIport : Ptr → Handler Iport := follow Graph.iports .iportFreed
def getIwi : Ptr → Handler Iwi := follow Graph.iwis .iwiFreed
def getIws : Ptr → Handler Iws := follow Graph.iwss .iwsFreed
def getIfs : Ptr → Handler Ifs := follow Graph.ifss .ifsFreed
def getIpage : Ptr → Handler Ipage := follow Graph.ipages .ipageFreed

/-- `ipage->iws`, which is about to be followed. -/
def getOwner : Ptr → Handler Iws := follow Graph.iwss .ownerFreed

/-- `ifs->iws`, which is about to be followed. -/
def getClient : Ptr → Handler Iws := follow Graph.iwss .clientFreed

/-- A pointer that is not `NULL`. -/
def notNull {α : Type} : Option α → Handler α
  | some a => pure a
  | none => throw .null

theorem update_some {α : Type} {heap : Ptr → Option α} {p p' : Ptr} {a b : α} :
    update heap p (some a) p' = some b ↔ p' = p ∧ a = b ∨ p' ≠ p ∧ heap p' = some b := by
  by_cases h : p' = p
  · subst h
    simp
  · simp [h]

theorem update_none {α : Type} {heap : Ptr → Option α} {p p' : Ptr} {b : α} :
    update heap p none p' = some b ↔ p' ≠ p ∧ heap p' = some b := by
  by_cases h : p' = p
  · subst h
    simp
  · simp [h]

namespace Graph

def setIport (g : Graph) (p : Ptr) (iport : Iport) : Graph :=
  { g with iports := update g.iports p (some iport) }

def setIwi (g : Graph) (i : Ptr) (iwi : Iwi) : Graph :=
  { g with iwis := update g.iwis i (some iwi) }

def setIws (g : Graph) (s : Ptr) (iws : Iws) : Graph :=
  { g with iwss := update g.iwss s (some iws) }

def setIfs (g : Graph) (f : Ptr) (ifs : Ifs) : Graph :=
  { g with ifss := update g.ifss f (some ifs) }

def setIpage (g : Graph) (q : Ptr) (ipage : Ipage) : Graph :=
  { g with ipages := update g.ipages q (some ipage) }

theorem setIwi_self (g : Graph) (i : Ptr) (iwi : Iwi) : (g.setIwi i iwi).iwis i = some iwi :=
  update_self _ _ _

theorem setIws_self (g : Graph) (s : Ptr) (iws : Iws) : (g.setIws s iws).iwss s = some iws :=
  update_self _ _ _

theorem setIpage_self (g : Graph) (q : Ptr) (ipage : Ipage) :
    (g.setIpage q ipage).ipages q = some ipage := update_self _ _ _

def freeIport (g : Graph) (p : Ptr) : Graph := { g with iports := update g.iports p none }
def freeIwi (g : Graph) (i : Ptr) : Graph := { g with iwis := update g.iwis i none }
def freeIws (g : Graph) (s : Ptr) : Graph := { g with iwss := update g.iwss s none }
def freeIfs (g : Graph) (f : Ptr) : Graph := { g with ifss := update g.ifss f none }
def freeIpage (g : Graph) (q : Ptr) : Graph := { g with ipages := update g.ipages q none }

end Graph

/-- A change of the graph. -/
def link (f : Graph → Graph) : Handler Unit := modify fun w => { w with graph := f w.graph }

def malloc : Handler Ptr := do
  let w ← get
  link fun g => { g with fresh := g.fresh + 1 }
  pure w.graph.fresh

def emit (o : Out) : Handler Unit := modify fun w => { w with out := w.out ++ [o] }

/-! ### What the steps do -/

section Steps

variable {α : Type} {w : World} {E : Fault → Prop}

@[simp]
theorem meets_follow {heap : Graph → Ptr → Option α} {gone : Fault} {p : Ptr}
    {Q : α → World → Prop} :
    Meets (follow heap gone p) w Q E ↔
      (∀ a, heap w.graph p = some a → Q a w) ∧ (heap w.graph p = none → E gone) := by
  show Meets (match heap w.graph p with | some a => pure a | none => throw gone) w Q E ↔ _
  cases heap w.graph p with
  | none => exact ⟨fun h => ⟨nofun, fun _ => h⟩, fun h => h.2 rfl⟩
  | some a => exact ⟨fun h => ⟨fun b hb => Option.some.inj hb ▸ h, nofun⟩, fun h => h.1 a rfl⟩

@[simp]
theorem meets_getIport {p : Ptr} {Q : Iport → World → Prop} :
    Meets (getIport p) w Q E ↔ (∀ iport, w.graph.iports p = some iport → Q iport w) ∧
      (w.graph.iports p = none → E .iportFreed) := meets_follow

@[simp]
theorem meets_getIwi {i : Ptr} {Q : Iwi → World → Prop} :
    Meets (getIwi i) w Q E ↔ (∀ iwi, w.graph.iwis i = some iwi → Q iwi w) ∧
      (w.graph.iwis i = none → E .iwiFreed) := meets_follow

@[simp]
theorem meets_getIws {s : Ptr} {Q : Iws → World → Prop} :
    Meets (getIws s) w Q E ↔ (∀ iws, w.graph.iwss s = some iws → Q iws w) ∧
      (w.graph.iwss s = none → E .iwsFreed) := meets_follow

@[simp]
theorem meets_getOwner {s : Ptr} {Q : Iws → World → Prop} :
    Meets (getOwner s) w Q E ↔ (∀ iws, w.graph.iwss s = some iws → Q iws w) ∧
      (w.graph.iwss s = none → E .ownerFreed) := meets_follow

@[simp]
theorem meets_getClient {s : Ptr} {Q : Iws → World → Prop} :
    Meets (getClient s) w Q E ↔ (∀ iws, w.graph.iwss s = some iws → Q iws w) ∧
      (w.graph.iwss s = none → E .clientFreed) := meets_follow

@[simp]
theorem meets_getIfs {f : Ptr} {Q : Ifs → World → Prop} :
    Meets (getIfs f) w Q E ↔ (∀ ifs, w.graph.ifss f = some ifs → Q ifs w) ∧
      (w.graph.ifss f = none → E .ifsFreed) := meets_follow

@[simp]
theorem meets_getIpage {q : Ptr} {Q : Ipage → World → Prop} :
    Meets (getIpage q) w Q E ↔ (∀ ipage, w.graph.ipages q = some ipage → Q ipage w) ∧
      (w.graph.ipages q = none → E .ipageFreed) := meets_follow

@[simp]
theorem meets_notNull {o : Option α} {Q : α → World → Prop} :
    Meets (notNull o) w Q E ↔ (∀ a, o = some a → Q a w) ∧ (o = none → E .null) := by
  cases o with
  | none => exact ⟨fun h => ⟨nofun, fun _ => h⟩, fun h => h.2 rfl⟩
  | some a => exact ⟨fun h => ⟨fun b hb => Option.some.inj hb ▸ h, nofun⟩, fun h => h.1 a rfl⟩

@[simp]
theorem meets_link {f : Graph → Graph} {Q : Unit → World → Prop} :
    Meets (link f) w Q E ↔ Q () { w with graph := f w.graph } := Iff.rfl

@[simp]
theorem meets_ask {Q : Nat → World → Prop} :
    Meets ask w Q E ↔ Q w.tick { w with tick := w.tick + 1 } := Iff.rfl

@[simp]
theorem meets_newFd {env : Outside} {Q : Nat → World → Prop} :
    Meets (newFd env) w Q E ↔
      Q (env.socket w.tick w.graph.allFds) { w with tick := w.tick + 1 } := Iff.rfl

@[simp]
theorem meets_malloc {Q : Ptr → World → Prop} :
    Meets malloc w Q E ↔
      Q w.graph.fresh { w with graph := { w.graph with fresh := w.graph.fresh + 1 } } := Iff.rfl

@[simp]
theorem meets_emit {o : Out} {Q : Unit → World → Prop} :
    Meets (emit o) w Q E ↔ Q () { w with out := w.out ++ [o] } := Iff.rfl

end Steps

/-! ## Sending -/

/-- `self->send`. -/
def sendFd (env : Outside) (fd : Nat) (bytes : List UInt8) : Handler Bool := do
  let n ← ask
  emit (.sent fd bytes (env.sends n))
  pure (env.sends n)

def iwdpSendData (env : Outside) (s : Ptr) (bytes : List UInt8) : Handler Bool := do
  let iws ← getIws s
  let _ ← getIport iws.iport
  sendFd env iws.wsFd bytes

/-- `rpc_send_msg` by way of `iwdp_send_plist` and `iwdp_send_packet`. -/
def rpcSendMsg (env : Outside) (i : Ptr) (rpc : Rpc) : Handler Bool := do
  let iwi ← getIwi i
  let p ← notNull iwi.iport
  let _ ← getIport p
  let n ← ask
  emit (.rpc i rpc (env.sends n))
  pure (env.sends n)

/-- `rpc_send_reportIdentifier`. -/
def sendReportIdentifier (env : Outside) (i : Ptr) (connectionId : Option Str) : Handler Bool :=
  match connectionId with
  | some c => rpcSendMsg env i (.reportIdentifier c)
  | none => pure false

/-- `rpc_send_forwardGetListing`. -/
def sendForwardGetListing (env : Outside) (i : Ptr) (connectionId : Option Str) (appId : Str) :
    Handler Bool :=
  match connectionId with
  | some c => rpcSendMsg env i (.forwardGetListing c appId)
  | none => pure false

/-- `rpc_send_forwardSocketSetup`. -/
def sendForwardSocketSetup (env : Outside) (i : Ptr) (connectionId : Option Str) (appId : Str)
    (pageId : Nat) (senderId : Option Str) : Handler Bool :=
  match connectionId, senderId with
  | some c, some d => rpcSendMsg env i (.forwardSocketSetup c appId pageId d)
  | _, _ => pure false

/-- `rpc_send_forwardSocketData`. -/
def sendForwardSocketData (env : Outside) (i : Ptr) (connectionId : Option Str) (appId : Str)
    (pageId : Nat) (senderId : Option Str) (data : Option (List UInt8)) : Handler Bool :=
  match connectionId, senderId, data with
  | some c, some d, some bytes => rpcSendMsg env i (.forwardSocketData c appId pageId d bytes)
  | _, _, _ => pure false

/-- `rpc_send_forwardDidClose`. -/
def sendForwardDidClose (env : Outside) (i : Ptr) (connectionId : Option Str) (appId : Str)
    (pageId : Nat) (senderId : Option Str) : Handler Bool :=
  match connectionId, senderId with
  | some c, some d => rpcSendMsg env i (.forwardDidClose c appId pageId d)
  | _, _ => pure false

/-! ## Frames -/

/-- The surroundings of `iws->ws` while `self->send` gives `ok`. -/
def wsEnv (env : Outside) (ok : Bool) : WsEnv where
  machine := env.machine
  inGrants := fun _ => true
  sends := fun _ => ok
  keeps := fun _ => true
  answers := fun _ => []
  beyond := env.beyond

def setWs (s : Ptr) (conn : WsConn) : Handler Unit :=
  modify fun w => { w with ws := update w.ws s conn }

/-- `ws->send_frame`.  What it did is the last of its calls. -/
def sendFrame (env : Outside) (s : Ptr) (a : SendFrame) : Handler Bool := do
  let _ ← getIws s
  let w ← get
  let ws := wsSendFrame (wsEnv env (env.sends w.tick)) (w.ws s).ws a
  setWs s { w.ws s with ws := ws }
  if ws.state = .crashed then throw .overrun
  else
    match ws.calls.getLast? with
    | some (.sendData bytes) => iwdpSendData env s bytes
    | _ => pure false

/-- A whole frame without a mask, as the proxy sends it. -/
def plainFrame (opcode : UInt8) (payload : List UInt8) : SendFrame :=
  ⟨true, opcode, false, some payload, fun _ => 0⟩

def closeNormal : Nat := 1000
def closeGoingAway : Nat := 1001
def closeProtocolError : Nat := 1002

/-- `ws_send_close`. -/
def sendClose (env : Outside) (s : Ptr) (closeCode : Nat) (reason : Str) : Handler Bool :=
  sendFrame env s (plainFrame opcodeClose (beBytes 2 closeCode ++ reason))

end IDeviceStack.WebkitProxy.Iwdp
