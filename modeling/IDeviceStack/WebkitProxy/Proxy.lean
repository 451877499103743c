/-
# `WebkitProxy.Proxy` — the proxy as a whole

What `sm_select` and the device listener call: a device comes or goes, a browser
connects, bytes or a message arrive, a descriptor fails.  A run is one such event after
the other.

* `Event.message` is one packet of an inspector, `wi_on_recv` being that of
  `WebkitProxy.Webinspector`.  If a packet is no message, or its handler fails, the
  descriptor of the inspector goes; `Event.gone` is also for the first case.
* An event for a descriptor that is not there, or that has no such events, changes
  nothing.
* The device manager is told about a new device; that its texts are there is part of
  `Attach`.  A run has no more than one `Event.start`, but nothing here depends on that.
-/
import IDeviceStack.WebkitProxy.Browser

namespace IDeviceStack.WebkitProxy.Iwdp

open Lib Libplist

/-! ## Ports -/

/-- The range `min_port` … `max_port`. -/
def portRange (minPort maxPort : Int) : List Int :=
  (List.range (maxPort + 1 - minPort).toNat).map fun (n : Nat) => minPort + n

/-- The inner loop over the ports that are taken. -/
def isTaken (port : Int) : List Ptr → Handler Bool
  | [] => pure false
  | p :: ps => do
      let iport ← getIport p
      if iport.port = port then pure true else isTaken port ps

/-- `self->listen`. -/
def listenOn (env : Outside) (port : Int) : Handler (Option Nat) := do
  let n ← ask
  if env.listens n port then some <$> newFd env else pure none

/-- The loop over a range of ports: the descriptor and the port. -/
def listenInRange (env : Outside) (port : Int) (iports : List Ptr) :
    List Int → Handler (Option (Nat × Int))
  | [] => pure none
  | p :: ps => do
      let taken ← isTaken p iports
      if ¬ taken ∧ p ≠ port then do
        match ← listenOn env p with
        | some sFd => pure (some (sFd, p))
        | none => listenInRange env port iports ps
      else listenInRange env port iports ps

/-- The port of a device, a new one if it has none. -/
def iportOf (deviceId : Option Str) (old : Option Ptr) : Handler Ptr :=
  match old with
  | some p => pure p
  | none => do
      let p ← malloc
      link fun g => g.setIport p ⟨0, 0, false, ∅, deviceId, none⟩
      link fun g => { g with deviceIdToIport := g.deviceIdToIport.insert deviceId p }
      pure p

/-- The first try of `iwdp_listen`. -/
def listenDirectly (env : Outside) (port : Int) : Handler (Option Nat) :=
  if 0 < port then listenOn env port else pure none

/-- The part of `iwdp_listen` that opens a socket: the descriptor and the port. -/
def listenForBrowsers (env : Outside) (port minPort maxPort : Int) :
    Handler (Option (Nat × Int)) := do
  match ← listenDirectly env port with
  | some sFd => pure (some (sFd, port))
  | none =>
    if 0 < minPort ∧ minPort ≤ maxPort then do
      let w ← get
      listenInRange env port w.graph.deviceIdToIport.values (portRange minPort maxPort)
    else pure none

/-- The part of `iwdp_listen` after `select_port`. -/
def listenOnPort (env : Outside) (deviceId : Option Str) (old : Option Ptr)
    (port minPort maxPort : Int) : Handler Bool := do
  let p ← iportOf deviceId old
  match ← listenForBrowsers env port minPort maxPort with
  | none => pure false
  | some (sFd, port) => do
      if ← smAddFd sFd (.iport p) then do
        let iport ← getIport p
        link fun g => g.setIport p { iport with sFd := sFd, port := port }
        pure true
      else pure false

/-- Whether a device has a port that is open, and the number of its port. -/
def oldPort : Option Ptr → Handler (Bool × Int)
  | none => pure (false, -1)
  | some p => do
      let iport ← getIport p
      pure (decide (0 < iport.sFd), iport.port)

def iwdpListen (env : Outside) (deviceId : Option Str) : Handler Bool := do
  let w ← get
  let old := w.graph.deviceIdToIport.lookup deviceId
  let (isOn, port) ← oldPort old
  if isOn then pure false
  else do
    let n ← ask
    match env.selectPort n deviceId port with
    | none => pure deviceId.isNone
    | some (port, minPort, maxPort) =>
      if port < 0 ∧ (minPort < 0 ∨ maxPort < minPort) then pure deviceId.isNone
      else listenOnPort env deviceId old port minPort maxPort

/-! ## Devices -/

/-- `iwdp_start`, without the callback for the simulator. -/
def iwdpStart (env : Outside) : Handler Unit := do
  let _ ← iwdpListen env none
  let n ← ask
  if env.subscribes n then do
    let dlFd ← newFd env
    let _ ← smAddFd dlFd .idl
    pure ()
  else pure ()

/-- `self->remove_fd(self, iport->s_fd)`. -/
def removePort (env : Outside) (p : Ptr) : Handler Unit := do
  let iport ← getIport p
  let _ ← smRemoveFd env iport.sFd
  pure ()

/-- The inspector of a new device. -/
def startInspector (env : Outside) (p : Ptr) (names : Bool) : Handler Unit := do
  let wiFd ← newFd env
  let i ← malloc
  link fun g => g.setIwi i ⟨some p, 0, none, none, 0, ∅, ∅⟩
  let iport ← getIport p
  link fun g => g.setIport p { iport with iwi := some i }
  if ← smAddFd wiFd (.iwi i) then do
    let n ← ask
    modifyIwi i fun iwi => { iwi with wiFd := wiFd, connectionId := some (env.uuid n) }
    if ← sendReportIdentifier env i (some (env.uuid n)) then
      if names then do
        let iport ← getIport p
        link fun g => g.setIport p { iport with isSticky := true }
      else throw .noString
    else removePort env p
  else removePort env p

def iwdpOnAttach (env : Outside) (deviceId : Str) : Handler Unit := do
  if ← iwdpListen env (some deviceId) then do
    let w ← get
    match w.graph.deviceIdToIport.lookup (some deviceId) with
    | none => pure ()
    | some p => do
        let iport ← getIport p
        if iport.iwi.isSome then pure ()
        else do
          let n ← ask
          match env.attach n deviceId with
          | .failed => removePort env p
          | .connected names => startInspector env p names
  else pure ()

def iwdpOnDetach (env : Outside) (deviceId : Str) : Handler Unit := do
  let w ← get
  match w.graph.deviceIdToIport.lookup (some deviceId) with
  | none => pure ()
  | some p => do
      let iport ← getIport p
      if 0 < iport.sFd then do
        let _ ← smRemoveFd env iport.sFd
        pure ()
      else pure ()

/-! ## Sockets -/

def iwdpIportAccept (env : Outside) (p : Ptr) (wsFd : Nat) : Handler Ptr := do
  let s ← malloc
  setWs s wsPrivateNew
  let n ← ask
  link fun g => g.setIws s ⟨p, wsFd, env.uuid n, 0, none, none⟩
  let iport ← getIport p
  link fun g => g.setIport p { iport with wsIdToIws := iport.wsIdToIws.insert (env.uuid n) s }
  pure s

/-- A turn of the loop in `sm_accept`, for a server socket with the port `p`. -/
def smAccept (env : Outside) (p : Ptr) : Handler Unit := do
  let fd ← newFd env
  let s ← iwdpIportAccept env p fd
  if ← smAddFd fd (.iws s) then pure ()
  else do
    let _ ← iwdpOnClose env (smRemoveFd env) (.iws s)
    pure ()

/-- `iwdp_on_recv` for a file connection. -/
def relay (env : Outside) (f : Ptr) (buf : List UInt8) : Handler Bool := do
  let ifs ← getIfs f
  let s ← notNull ifs.iws
  let iws ← getClient s
  if ← sendFd env iws.wsFd buf then pure true
  else do
    let _ ← smRemoveFd env iws.wsFd
    pure false

/-- What `sm_recv` does with what `on_recv` returns. -/
def orRemove (env : Outside) (fd : Nat) (ok : Bool) : Handler Unit :=
  if ok then pure ()
  else do
    let _ ← smRemoveFd env fd
    pure ()

/-! ## Events -/

inductive Event where
  | start
  | attach (deviceId : Str)
  | detach (deviceId : Str)
  /-- A browser connects to a server socket. -/
  | accept (sFd : Nat)
  /-- `recv` on the socket of a browser or of a file server gives bytes. -/
  | bytes (fd : Nat) (buf : List UInt8)
  /-- A packet of an inspector. -/
  | message (fd : Nat) (rpcDict : Plist)
  /-- `recv` gives nothing or fails, or `accept` or a resumed `send` fails, or `select` says so. -/
  | gone (fd : Nat)

/-- The value of a descriptor that `sm_select` looks at. -/
def Graph.watched (g : Graph) (fd : Nat) : Option Value :=
  if fd ∈ g.allFds then g.fdToValue fd else none

def handle (env : Outside) : Event → Handler Unit
  | .start => iwdpStart env
  | .attach deviceId => iwdpOnAttach env deviceId
  | .detach deviceId => iwdpOnDetach env deviceId
  | .accept sFd => do
      let w ← get
      match w.graph.watched sFd with
      | some (.iport p) => smAccept env p
      | _ => pure ()
  | .bytes fd buf => do
      let w ← get
      match w.graph.watched fd with
      | some (.iws s) =>
        if buf.isEmpty then pure ()
        else do
          let ok ← wsOnRecv env s buf
          orRemove env fd ok
      | some (.ifs f) => do
          let ok ← relay env f buf
          orRemove env fd ok
      | _ => pure ()
  | .message fd rpcDict => do
      let w ← get
      match w.graph.watched fd with
      | some (.iwi i) => do
          let ok ← rpcRecvPlist env i rpcDict
          orRemove env fd ok
      | _ => pure ()
  | .gone fd => orRemove env fd false

/-- The proxy after an event, unless it faults. -/
def step (env : Outside) (w : World) (e : Event) : Except Fault World := after (handle env e) w

/-- The states that the proxy can be in. -/
def Reachable (env : Outside) (w : World) : Prop :=
  ∃ es, runAll (step env) World.start es = .ok w

end IDeviceStack.WebkitProxy.Iwdp
