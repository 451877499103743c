/-
# `WebkitProxy.Attach` — a device comes

`iwdp_on_attach` of `ios_webkit_debug_proxy.c`, with `iwdp_listen`, step by step: it opens a port,
connects to the inspector, registers both descriptors, reports to the inspector and tells the
device manager.  Here every one of these steps may fail (`AttachOutcomes`).

**Proved here.**  `attachRight_iff`.

* A text that the device does not tell is `NULL`; so are all of the simulator's.  A device that had
  a name before is not asked for it again.
* A descriptor that is open, but that `sm_add_fd` has not taken, is a stray: no one closes it.
* Of `DeviceManager::addDevice` only the entry in the list is here, not the talk with the register
  server, which may end the process.
-/
import IDeviceStack.WebkitProxy.Wiring

namespace IDeviceStack.WebkitProxy.Iwdp

open Lib Libplist Function Option

/-! ## The proxy with its devices -/

/-- An entry of the device manager. -/
structure DeviceInfo where
  deviceId : Int
  /-- An `unsigned short`. -/
  port : Int
  deviceName : Str
  deviceSerialNo : Str
  productModel : Str
  os : Str
  macAddr : Str
  productSerialNumber : Str
  sfd : Nat

/-- The texts that `self->attach` asks a device for. -/
structure DeviceTexts where
  deviceName : Option Str
  productModel : Option Str
  iosVersion : Option Str
  macAddr : Option Str
  serialNo : Option Str

/-- What the steps of an attach come to. -/
structure AttachOutcomes where
  /-- `self->select_port`, given the old port: the port and the range, or an error. -/
  selectPort : Int → Option (Int × Int × Int)
  /-- `self->listen`. -/
  listens : Int → Bool
  /-- `self->add_fd` for the port. -/
  registersPort : Bool
  /-- `self->connect`, or `self->attach` with its texts. -/
  connects : Option DeviceTexts
  /-- `self->add_fd` for the inspector. -/
  registersInspector : Bool
  /-- `send_reportIdentifier`. -/
  reports : Bool

/-- The proxy, the names of its ports, the device manager, and the descriptors that it lost. -/
structure Site where
  world : World
  /-- `iport->device_name`. -/
  names : Ptr → Option Str
  devices : List DeviceInfo
  strays : Finset Nat

def Site.start : Site := ⟨World.start, fun _ => none, [], ∅⟩

abbrev SiteHandler (α : Type) := Prog Site Fault α

/-- A handler of the proxy. -/
def onWorld {α : Type} (m : Handler α) : SiteHandler α := fun site =>
  (m site.world).map fun r => (r.1, { site with world := r.2 })

theorem meets_onWorld {α : Type} {m : Handler α} {site : Site} {Q : α → Site → Prop}
    {E : Fault → Prop} : Meets (onWorld m) site Q E ↔
      Meets m site.world (fun a w => Q a { site with world := w }) E := by
  rw [Meets, Meets, onWorld]
  cases m site.world with
  | ok r => exact Iff.rfl
  | error f => exact Iff.rfl

/-- New descriptors are not strays. -/
def Outside.avoiding (env : Outside) (strays : Finset Nat) : Outside :=
  { env with
    socket := fun n used => env.socket n (used ∪ strays)
    socket_pos := fun n used => env.socket_pos n (used ∪ strays)
    socket_unused := fun n used h =>
      env.socket_unused n (used ∪ strays) (Finset.mem_union_left strays h) }

/-- The world outside during an attach. -/
def AttachOutcomes.outside (o : AttachOutcomes) (env : Outside) : Outside :=
  { env with
    selectPort := fun _ _ port => o.selectPort port
    listens := fun _ port => o.listens port
    sends := fun _ => o.reports }

/-- `self->add_fd`. -/
def addFd (registers : Bool) (fd : Nat) (value : Value) : SiteHandler Bool :=
  if registers then onWorld (smAddFd fd value)
  else do
    modify fun site => { site with strays := insert fd site.strays }
    pure false

/-! ## `iwdp_listen` -/

/-- A new port has no name. -/
def unname (old : Option Ptr) (p : Ptr) : SiteHandler Unit :=
  match old with
  | some _ => pure ()
  | none => modify fun site => { site with names := update site.names p none }

/-- The part of `iwdp_listen` after `select_port`. -/
def listenWith (env : Outside) (o : AttachOutcomes) (deviceId : Str) (port minPort maxPort : Int) :
    SiteHandler Bool := do
  let site ← get
  let old := site.world.graph.deviceIdToIport.lookup (some deviceId)
  let p ← onWorld (iportOf (some deviceId) old)
  unname old p
  match ← onWorld (listenForBrowsers env port minPort maxPort) with
  | none => pure false
  | some (sFd, port) => do
      if ← addFd o.registersPort sFd (.iport p) then do
        let iport ← onWorld (getIport p)
        onWorld (link fun g => g.setIport p { iport with sFd := sFd, port := port })
        pure true
      else pure false

/-- `iwdp_listen`. -/
def listenFor (env : Outside) (o : AttachOutcomes) (deviceId : Str) : SiteHandler Bool := do
  let site ← get
  let (isOn, port) ←
    onWorld (oldPort (site.world.graph.deviceIdToIport.lookup (some deviceId)))
  if isOn then pure false
  else
    match o.selectPort port with
    | none => pure false
    | some (port, minPort, maxPort) =>
      if port < 0 ∧ (minPort < 0 ∨ maxPort < minPort) then pure false
      else listenWith env o deviceId port minPort maxPort

/-! ## `iwdp_on_attach` -/

inductive AttachStatus where
  | success
  /-- `"Null device_id"` -/
  | nullDeviceId
  /-- `"Internal error: !iport %s"` -/
  | mismatch
  /-- `"add_fd wi_fd=%d failed"` -/
  | addFdFailed
  deriving DecidableEq

def simulator : Str := ascii "SIMULATOR"

/-- The connection to an inspector, with the texts that come with it. -/
def AttachOutcomes.texts (o : AttachOutcomes) (deviceId : Str) : Option DeviceTexts :=
  if deviceId = simulator then o.connects.map fun _ => ⟨none, none, none, none, none⟩
  else o.connects

/-- `::tolower`. -/
def toLower (c : UInt8) : UInt8 := if 65 ≤ c ∧ c ≤ 90 then c + 32 else c

/-- The entry for the device manager; `std::string` of `NULL` ends the program. -/
def DeviceInfo.new (deviceNum : Int) (iport : Iport) (deviceName : Option Str)
    (texts : DeviceTexts) : Option DeviceInfo := do
  let name ← deviceName
  let model ← texts.productModel
  let os ← texts.iosVersion
  let mac ← texts.macAddr
  let serial ← texts.serialNo
  pure ⟨deviceNum, iport.port % 2 ^ 16, name.map toLower, model.map toLower, model, os, mac, serial,
    iport.sFd⟩

/-- A new inspector, and the port that it belongs to. -/
def newInspector (p : Ptr) : Handler Ptr := do
  let i ← malloc
  link fun g => g.setIwi i ⟨some p, 0, none, none, 0, ∅, ∅⟩
  let iport ← getIport p
  link fun g => g.setIport p { iport with iwi := some i }
  pure i

/-- `iwi->wi_fd`, `rpc_new_uuid`, and `send_reportIdentifier`. -/
def report (env : Outside) (i : Ptr) (wiFd : Nat) : Handler Bool := do
  let n ← ask
  modifyIwi i fun iwi => { iwi with wiFd := wiFd, connectionId := some (env.uuid n) }
  sendReportIdentifier env i (some (env.uuid n))

/-- The end of `iwdp_on_attach`. -/
def addDevice (deviceNum : Int) (p : Ptr) (deviceName : Option Str) (texts : DeviceTexts) :
    SiteHandler AttachStatus := do
  let iport ← onWorld (getIport p)
  match DeviceInfo.new deviceNum iport deviceName texts with
  | none => throw .noString
  | some info => do
      modify fun site => { site with devices := site.devices ++ [info] }
      onWorld (link fun g => g.setIport p { iport with isSticky := true })
      pure .success

/-- The part of `iwdp_on_attach` after the connection. -/
def startWith (env : Outside) (o : AttachOutcomes) (deviceId : Str) (deviceNum : Int) (p : Ptr)
    (texts : DeviceTexts) : SiteHandler AttachStatus := do
  let wiFd ← onWorld (newFd env)
  let site ← get
  let deviceName := (site.names p).or texts.deviceName
  modify fun site =>
    { site with names := update site.names p (some (deviceName.getD deviceId)) }
  let i ← onWorld (newInspector p)
  if ← addFd o.registersInspector wiFd (.iwi i) then do
    if ← onWorld (report env i wiFd) then addDevice deviceNum p deviceName texts
    else do
      onWorld (removePort env p)
      pure .success
  else do
    onWorld (removePort env p)
    pure .addFdFailed

/-- The part of `iwdp_on_attach` after `iwdp_listen`. -/
def connectInspector (env : Outside) (o : AttachOutcomes) (deviceId : Str) (deviceNum : Int) :
    SiteHandler AttachStatus := do
  let site ← get
  match site.world.graph.deviceIdToIport.lookup (some deviceId) with
  | none => pure .mismatch
  | some p => do
      let iport ← onWorld (getIport p)
      if iport.iwi.isSome then pure .success
      else
        match o.texts deviceId with
        | none => do
            onWorld (removePort env p)
            pure .success
        | some texts => startWith env o deviceId deviceNum p texts

/-- `iwdp_on_attach`. -/
def onAttach (env : Outside) (deviceId : Option Str) (deviceNum : Int) (o : AttachOutcomes) :
    SiteHandler AttachStatus := do
  let site ← get
  let env := o.outside (env.avoiding site.strays)
  match deviceId with
  | none => pure .nullDeviceId
  | some deviceId => do
      if ← listenFor env o deviceId then connectInspector env o deviceId deviceNum
      else pure .success

/-! ## Runs -/

inductive SiteEvent where
  | attach (deviceId : Option Str) (deviceNum : Int) (o : AttachOutcomes)
  /-- Everything else. -/
  | other (e : Event) (he : ∀ deviceId, e ≠ .attach deviceId)

def Site.step (env : Outside) (site : Site) : SiteEvent → Except Fault Site
  | .attach deviceId deviceNum o => after (onAttach env deviceId deviceNum o) site
  | .other e _ =>
    (Iwdp.step (env.avoiding site.strays) site.world e).map fun w => { site with world := w }

/-- The states that the proxy can be in. -/
def Site.Reachable (env : Outside) (site : Site) : Prop :=
  ∃ es, runAll (Site.step env) Site.start es = .ok site

/-! ## What an attach should come to -/

/-- The device has a port that listens, an inspector that belongs to it, and an entry in the device
manager. -/
def Attached (deviceId : Str) (site : Site) : Prop :=
  ∃ p iport i iwi, site.world.graph.deviceIdToIport.lookup (some deviceId) = some p ∧
    site.world.graph.iports p = some iport ∧
    0 < iport.sFd ∧ site.world.graph.watched iport.sFd = some (.iport p) ∧
    iport.iwi = some i ∧ site.world.graph.iwis i = some iwi ∧ iwi.iport = some p ∧
    0 < iwi.wiFd ∧ site.world.graph.watched iwi.wiFd = some (.iwi i) ∧
    ∃ info ∈ site.devices, info.sfd = iport.sFd ∧ info.port = iport.port % 2 ^ 16

/-- The port of the device is closed, and there are no more descriptors and inspectors than
before. -/
structure NothingLeft (deviceId : Str) (site site' : Site) : Prop where
  port : ∀ iport, site'.world.graph.portOf (some deviceId) = some iport →
    iport.sFd = 0 ∧ iport.iwi = none
  allFds : site'.world.graph.allFds = site.world.graph.allFds
  strays : site'.strays = site.strays
  iwis : site'.world.graph.iwis = site.world.graph.iwis

/-- An error means a device without an identifier, or a table that is wrong; a device is attached,
or nothing of it is left. -/
def AttachEnds (deviceId : Option Str) (site : Site) (status : AttachStatus) (site' : Site) :
    Prop :=
  status ≠ .addFdFailed ∧
    ∀ d, deviceId = some d → Attached d site' ∨ NothingLeft d site site'

/-- The attach comes to an end, which is as it should be. -/
def AttachRight (env : Outside) (site : Site) (deviceId : Option Str) (deviceNum : Int)
    (o : AttachOutcomes) : Prop :=
  ∃ status site', onAttach env deviceId deviceNum o site = .ok (status, site') ∧
    AttachEnds deviceId site status site'

/-- A port is opened for the device. -/
def AttachOutcomes.Binds (o : AttachOutcomes) (g : Graph) (deviceId : Str) : Prop :=
  (∀ iport, g.portOf (some deviceId) = some iport → iport.sFd = 0) ∧
    ∃ port minPort maxPort,
      o.selectPort (((g.portOf (some deviceId)).map Iport.port).getD (-1)) =
        some (port, minPort, maxPort) ∧
      ¬ (port < 0 ∧ (minPort < 0 ∨ maxPort < minPort)) ∧
      g.CanListen o.listens port minPort maxPort

/-- The name that the proxy has for the device. -/
def Site.nameOf (site : Site) (deviceId : Str) : Option Str :=
  (site.world.graph.deviceIdToIport.lookup (some deviceId)).bind site.names

/-- All texts are there, if the device has this name. -/
structure DeviceTexts.Complete (texts : DeviceTexts) (deviceName : Option Str) : Prop where
  deviceName : (deviceName.or texts.deviceName).isSome
  productModel : texts.productModel.isSome
  iosVersion : texts.iosVersion.isSome
  macAddr : texts.macAddr.isSome
  serialNo : texts.serialNo.isSome

/-- Both descriptors are registered, and all texts are there. -/
def AttachOutcomes.Clean (o : AttachOutcomes) (site : Site) (deviceId : Str) : Prop :=
  o.Binds site.world.graph deviceId → o.registersPort ∧
    ∀ texts, o.texts deviceId = some texts → o.registersInspector ∧
      (o.reports → texts.Complete (site.nameOf deviceId))

/-! ## One attach -/

/-- The entries of the device manager, by descriptor and port. -/
def registerOf (devices : List DeviceInfo) : Register := fun _ sfd port =>
  ∃ info ∈ devices, info.sfd = sfd ∧ info.port = port % 2 ^ 16

/-- The links of the proxy are whole, and every open port stands in the device manager. -/
def SiteWired (site : Site) : Prop := Wired (registerOf site.devices) site.world

/-- The graph has got a port for the device, if it had none. -/
def HasPort (g : Graph) (deviceId : Str) (p : Ptr) (g' : Graph) : Prop :=
  g.deviceIdToIport.lookup (some deviceId) = some p ∧ g' = g ∨
    g.deviceIdToIport.lookup (some deviceId) = none ∧ p = g.fresh ∧ g' = g.newPort (some deviceId)

section Attach

variable {env : Outside} {o : AttachOutcomes} {deviceId : Str} {deviceNum : Int} {site : Site}
  {register : Register} {g g' : Graph} {w : World} {p i : Ptr} {iport : Iport} {iwi : Iwi}

theorem HasPort.links (h : HasPort g deviceId p g') (hs : Sockets g)
    (hports : Ports register noPort g) :
    Sockets g' ∧ Ports register noPort g' ∧ g'.allFds = g.allFds ∧ g'.iwis = g.iwis ∧
      g'.deviceIdToIport.lookup (some deviceId) = some p ∧
      ∃ iport, g'.iports p = some iport ∧ iport.deviceId = some deviceId := by
  rcases h with ⟨hk, rfl⟩ | ⟨hk, rfl, rfl⟩
  · exact ⟨hs, hports, rfl, rfl, hk, hports.table hk⟩
  · refine ⟨hs.newPort _, hports.newPort hk, rfl, rfl, AList.lookup_insert _, ?_⟩
    exact ⟨_, update_self _ _ _, rfl⟩

theorem HasPort.canListen (h : HasPort g deviceId p g') (hports : Ports register noPort g)
    (listens : Int → Bool) (port minPort maxPort : Int) :
    g'.CanListen listens port minPort maxPort ↔ g.CanListen listens port minPort maxPort := by
  rcases h with ⟨-, rfl⟩ | ⟨hk, -, rfl⟩
  · rfl
  refine or_congr_right (and_congr_right fun ⟨hmin, _⟩ => exists_congr fun q =>
    and_congr_right fun hq => and_congr_right fun _ => and_congr_right fun _ => ?_)
  have hpos : q ≠ 0 := by
    obtain ⟨n, -, rfl⟩ := List.mem_map.mp hq
    omega
  have hvalues : (g.newPort (some deviceId)).deviceIdToIport.values =
      g.fresh :: g.deviceIdToIport.values := by
    show List.map Sigma.snd (g.deviceIdToIport.insert (some deviceId) g.fresh).entries = _
    rw [AList.entries_insert_of_notMem (AList.lookup_eq_none.mp hk)]
    rfl
  constructor
  · intro hfree p hp iport hport
    refine hfree p ?_ iport ?_
    · rw [hvalues]
      exact List.mem_cons_of_mem _ hp
    · exact update_some.mpr (.inr ⟨Nat.ne_of_lt (hports.freshPort hport), hport⟩)
  · intro hfree p hp iport hport
    rw [hvalues] at hp
    rcases update_some.mp hport with ⟨rfl, rfl⟩ | ⟨hne, hport⟩
    · exact hpos.symm
    · exact hfree p ((List.mem_cons.mp hp).resolve_left hne) iport hport

variable {E : Fault → Prop}

theorem meets_addFd {registers : Bool} {fd : Nat} {v : Value} {Q : Bool → Site → Prop}
    (hyes : registers = true → Meets (smAddFd fd v) site.world
      (fun a w => Q a { site with world := w }) E)
    (hno : registers = false → Q false { site with strays := insert fd site.strays }) :
    Meets (addFd registers fd v) site Q E := by
  unfold addFd
  split
  · next h => exact meets_onWorld.mpr (hyes h)
  · next h => exact hno (by simpa using h)

/-! ### Listening -/

/-- No port was opened, and nothing else has changed. -/
def Unbound (o : AttachOutcomes) (deviceId : Str) (site site' : Site) : Prop :=
  ¬ o.Binds site.world.graph deviceId ∧ site'.strays = site.strays ∧
    (site'.world.graph = site.world.graph ∨
      ∃ p, HasPort site.world.graph deviceId p site'.world.graph ∧
        ∀ iport, site'.world.graph.iports p = some iport → iport.sFd = 0)

/-- A port was opened, but its descriptor got lost. -/
def Lost (o : AttachOutcomes) (deviceId : Str) (site site' : Site) : Prop :=
  o.Binds site.world.graph deviceId ∧ o.registersPort = false ∧ site'.strays ≠ site.strays ∧
    ∃ p, HasPort site.world.graph deviceId p site'.world.graph ∧
      ∀ iport, site'.world.graph.iports p = some iport → iport.sFd = 0

/-- A port was opened. -/
def Bound (o : AttachOutcomes) (deviceId : Str) (site site' : Site) : Prop :=
  o.Binds site.world.graph deviceId ∧ o.registersPort = true ∧ site'.strays = site.strays ∧
    ∃ p g iport fd port, HasPort site.world.graph deviceId p g ∧ g.iports p = some iport ∧
      iport.sFd = 0 ∧ 0 < fd ∧ fd ∉ g.allFds ∧ site'.names p = site.nameOf deviceId ∧
      site'.world.graph = g.openPort p iport fd port

/-- What `iwdp_listen` leads to. -/
def ListenEnds (o : AttachOutcomes) (deviceId : Str) (site : Site) (ok : Bool) (site' : Site) :
    Prop :=
  site'.devices = site.devices ∧
    (ok = false ∧ (Unbound o deviceId site site' ∨ Lost o deviceId site site') ∨
      ok = true ∧ Bound o deviceId site site')

theorem meets_listenWith (h : SiteWired site)
    (hclosed : ∀ iport, site.world.graph.portOf (some deviceId) = some iport → iport.sFd = 0)
    {port minPort maxPort : Int}
    (hselect : o.selectPort (((site.world.graph.portOf (some deviceId)).map Iport.port).getD (-1)) =
      some (port, minPort, maxPort))
    (husable : ¬ (port < 0 ∧ (minPort < 0 ∨ maxPort < minPort))) :
    Meets (listenWith (o.outside (env.avoiding site.strays)) o deviceId port minPort maxPort) site
      (ListenEnds o deviceId site) E := by
  rw [listenWith, meets_bind, meets_get]
  dsimp only
  rw [meets_bind, meets_onWorld]
  refine (meets_iportOf (w := site.world) (some deviceId)).post fun p w₁ hcase => ?_
  have hport : HasPort site.world.graph deviceId p w₁.graph := by
    rcases hcase with ⟨hk, rfl⟩ | ⟨hk, hp, rfl⟩
    · exact .inl ⟨hk, rfl⟩
    · exact .inr ⟨hk, hp, rfl⟩
  have hunname : Meets (unname (site.world.graph.deviceIdToIport.lookup (some deviceId)) p)
      { site with world := w₁ } (fun _ site₂ => site₂.world = w₁ ∧ site₂.devices = site.devices ∧
        site₂.strays = site.strays ∧ site₂.names p = site.nameOf deviceId) E := by
    rw [Site.nameOf]
    rcases hcase with ⟨hk, rfl⟩ | ⟨hk, rfl, rfl⟩
    · rw [hk]
      exact ⟨rfl, rfl, rfl, rfl⟩
    · rw [hk]
      exact ⟨rfl, rfl, rfl, update_self _ _ _⟩
  rw [meets_bind]
  refine hunname.post fun _ site₂ ⟨hworld, hdevices, hstrays, hname⟩ => ?_
  obtain ⟨hs1, hports1, -, -, -, iport, hp, hid⟩ := hport.links h.sockets h.ports
  have hzero : iport.sFd = 0 := by
    rcases hcase with ⟨hk, rfl⟩ | ⟨hk, rfl, rfl⟩
    · exact hclosed iport (by rw [portOf_some hk, hp])
    · rcases update_some.mp hp with ⟨-, rfl⟩ | ⟨hne, -⟩
      · rfl
      · exact absurd rfl hne
  have hzero' : ∀ iport, w₁.graph.iports p = some iport → iport.sFd = 0 := fun iport' hp' => by
    obtain rfl := some.inj (hp.symm.trans hp')
    exact hzero
  rw [meets_bind, meets_onWorld, hworld]
  refine (meets_listenForBrowsers hports1 _ _ _).post fun r w₂ ⟨hgraph, hopens, hr⟩ => ?_
  have hcan := (hr o.listens fun _ _ => rfl).trans (hport.canListen h.ports _ _ _ _)
  cases r with
  | none =>
    refine ⟨hdevices, .inl ⟨rfl, .inl ⟨?_, hstrays, .inr ⟨p, ?_, ?_⟩⟩⟩⟩
    · rintro ⟨-, port', minPort', maxPort', hselect', -, hcan'⟩
      rw [hselect] at hselect'
      cases hselect'
      exact absurd (hcan.mpr hcan') nofun
    · exact hgraph ▸ hport
    · exact hgraph ▸ hzero'
  | some r =>
    obtain ⟨fd, port'⟩ := r
    have hbinds : o.Binds site.world.graph deviceId :=
      ⟨hclosed, port, minPort, maxPort, hselect, husable, hcan.mp rfl⟩
    obtain ⟨n, rfl⟩ := hopens
    have hpos := env.socket_pos n (w₁.graph.allFds ∪ site.strays)
    have hnot := env.socket_unused n (w₁.graph.allFds ∪ site.strays)
    have hsocket : (o.outside (env.avoiding site.strays)).socket n w₁.graph.allFds =
        env.socket n (w₁.graph.allFds ∪ site.strays) := rfl
    rw [hsocket]
    generalize env.socket n (w₁.graph.allFds ∪ site.strays) = fd at hpos hnot
    rw [Finset.mem_union, not_or] at hnot
    rw [meets_bind]
    refine meets_addFd (fun hyes => ?_) fun hno => ?_
    · refine meets_smAddFd_new (g := w₁.graph) hs1 hnot.1 (by rw [hgraph]) (by rw [hgraph]) ?_
      rw [if_pos rfl, meets_bind, meets_onWorld, meets_getIport]
      have hp2 : w₂.graph.iports p = some iport := by rw [hgraph, hp]
      refine ⟨fun iport' hp' => ?_, fun hnone => ?_⟩
      · obtain rfl := some.inj (hp2.symm.trans hp')
        rw [meets_bind, meets_onWorld, meets_link, meets_pure]
        refine ⟨hdevices, .inr ⟨rfl, hbinds, hyes, hstrays, p, w₁.graph, iport, fd, port', hport,
          hp, hzero, hpos, hnot.1, hname, ?_⟩⟩
        rw [hgraph]
        rfl
      · rw [Graph.addFd, hp2] at hnone
        cases hnone
    · rw [if_neg nofun, meets_pure]
      refine ⟨hdevices, .inl ⟨rfl, .inr ⟨hbinds, hno, ?_, p, hgraph ▸ hport, hgraph ▸ hzero'⟩⟩⟩
      show insert fd site₂.strays ≠ site.strays
      rw [hstrays]
      intro heq
      exact hnot.2 (heq ▸ Finset.mem_insert_self _ _)

theorem meets_listenFor (h : SiteWired site) :
    Meets (listenFor (o.outside (env.avoiding site.strays)) o deviceId) site
      (ListenEnds o deviceId site) E := by
  rw [listenFor, meets_bind, meets_get]
  dsimp only
  rw [meets_bind, meets_onWorld]
  refine (meets_oldPort (w := site.world) h.ports (some deviceId)).post ?_
  rintro _ w₁ ⟨rfl, rfl⟩
  have hnone : ¬ o.Binds site.world.graph deviceId → ListenEnds o deviceId site false site :=
    fun hno => ⟨rfl, .inl ⟨rfl, .inl ⟨hno, rfl, .inl rfl⟩⟩⟩
  dsimp only
  split
  · next hon =>
    refine hnone fun ⟨hclosed, _⟩ => ?_
    obtain ⟨iport, hp, hopen⟩ := (any_eq_true _ _).mp hon
    rw [hclosed iport hp] at hopen
    exact absurd hopen nofun
  next hoff =>
  have hclosed : ∀ iport, site.world.graph.portOf (some deviceId) = some iport → iport.sFd = 0 := by
    intro iport hp
    rw [hp] at hoff
    simpa using hoff
  split
  · next hselect =>
    refine hnone ?_
    rintro ⟨-, port, minPort, maxPort, hselect', -⟩
    rw [hselect] at hselect'
    cases hselect'
  next port minPort maxPort hselect =>
  split
  · next hunusable =>
    refine hnone ?_
    rintro ⟨-, port', minPort', maxPort', hselect', husable, -⟩
    rw [hselect] at hselect'
    cases hselect'
    exact husable hunusable
  · next husable => exact meets_listenWith h hclosed hselect husable

/-! ### The inspector -/

theorem Ports.grow {register' : Register} {busy : Ptr → Prop} (h : Ports register busy g)
    (hregister : ∀ d fd port, register d fd port → register' d fd port) :
    Ports register' busy g where
  ofPort := h.ofPort
  ofIwi := h.ofIwi
  portFd := h.portFd
  portIwi := h.portIwi
  iwiPort := h.iwiPort
  table := h.table
  inTable := h.inTable
  opened hp hpos hd := (h.opened hp hpos hd).imp_left fun h => h.imp_right (hregister _ _ _)
  shut := h.shut
  freshPort := h.freshPort
  freshIwi := h.freshIwi

theorem Ports.addInspector (h : Ports register (· = p) g) (hs : Sockets g)
    (hp : g.iports p = some iport) (hopen : 0 < iport.sFd) (hnone : iport.iwi = none)
    (hport : iwi.iport = some p)
    (hg' : g'.iports = update g.iports p (some { iport with iwi := some g.fresh }) ∧
      g'.iwis = update g.iwis g.fresh (some iwi) ∧
      g'.deviceIdToIport = g.deviceIdToIport ∧ g'.fresh = g.fresh + 1)
    (hfds : iwi.wiFd = 0 ∧ g'.fdToValue = g.fdToValue ∨ 0 < iwi.wiFd ∧ iwi.wiFd ∉ g.allFds ∧
      g'.fdToValue = update g.fdToValue iwi.wiFd (some (.iwi g.fresh))) :
    Ports register (· = p) g' := by
  obtain ⟨hiports, hiwis, htable, hfresh⟩ := hg'
  have hold : ∀ {p' iport'}, g'.iports p' = some iport' →
      p' = p ∧ { iport with iwi := some g.fresh } = iport' ∨ p' ≠ p ∧ g.iports p' = some iport' :=
    fun hp' => update_some.mp (hiports ▸ hp')
  have hnew : ∀ {p' iport'}, g.iports p' = some iport' → ∃ iport'', g'.iports p' = some iport'' ∧
      iport''.sFd = iport'.sFd ∧ iport''.deviceId = iport'.deviceId ∧
        (p' ≠ p → iport'' = iport') := by
    intro p' iport' hp'
    rw [hiports]
    by_cases heq : p' = p
    · subst heq
      obtain rfl := some.inj (hp.symm.trans hp')
      exact ⟨_, update_self _ _ _, rfl, rfl, fun hne => absurd rfl hne⟩
    · exact ⟨iport', update_some.mpr (.inr ⟨heq, hp'⟩), rfl, rfl, fun _ => rfl⟩
  have hkept : ∀ {j iwj}, g.iwis j = some iwj → g'.iwis j = some iwj := fun hj => by
    rw [hiwis]
    exact update_some.mpr (.inr ⟨Nat.ne_of_lt (h.freshIwi hj), hj⟩)
  have hself : g'.iwis g.fresh = some iwi := by
    rw [hiwis]
    exact update_self _ _ _
  have hvalue : ∀ {x v}, g.fdToValue x = some v → g'.fdToValue x = some v := by
    intro x v hx
    rcases hfds with ⟨-, hsame⟩ | ⟨-, hnot, hadd⟩
    · rw [hsame, hx]
    · rw [hadd]
      refine update_some.mpr (.inr ⟨?_, hx⟩)
      rintro rfl
      exact hnot (hs.registered hx)
  have hvalues : ∀ {x v}, g'.fdToValue x = some v →
      g.fdToValue x = some v ∨ x = iwi.wiFd ∧ v = .iwi g.fresh := by
    intro x v hx
    rcases hfds with ⟨-, hsame⟩ | ⟨-, -, hadd⟩
    · exact .inl (hsame ▸ hx)
    · rw [hadd] at hx
      rcases update_some.mp hx with ⟨rfl, rfl⟩ | ⟨-, hx⟩
      · exact .inr ⟨rfl, rfl⟩
      · exact .inl hx
  refine ⟨fun hv => ?_, fun hv => ?_, fun hp' hpos => ?_, fun {p' iport' j} hp' hj => ?_,
    fun {j iwj p'} hj hport' => ?_, fun hk => ?_, fun hp' => ?_, fun hp' hpos hd => ?_,
    fun hp' hzero => ?_, fun hp' => ?_, fun {j iwj} hj => ?_⟩
  · rcases hvalues hv with hv | ⟨-, heq⟩
    · obtain ⟨iport', hp', hfd⟩ := h.ofPort hv
      obtain ⟨iport'', hp'', hfd'', -⟩ := hnew hp'
      exact ⟨iport'', hp'', hfd''.trans hfd⟩
    · cases heq
  · rcases hvalues hv with hv | ⟨rfl, heq⟩
    · obtain ⟨iwj, p', hj, hfd, hport'⟩ := h.ofIwi hv
      exact ⟨iwj, p', hkept hj, hfd, hport'⟩
    · cases heq
      exact ⟨iwi, p, hself, rfl, hport⟩
  · rcases hold hp' with ⟨rfl, rfl⟩ | ⟨-, hp'⟩
    · exact .inr rfl
    · exact (h.portFd hp' hpos).imp_left hvalue
  · rcases hold hp' with ⟨rfl, rfl⟩ | ⟨-, hp'⟩
    · cases hj
      refine ⟨iwi, hself, hport, fun hpos => ?_, .inr rfl⟩
      rcases hfds with ⟨hzero, -⟩ | ⟨-, -, hadd⟩
      · exact absurd hpos (hzero ▸ Nat.lt_irrefl 0)
      · rw [hadd]
        exact update_self _ _ _
    · obtain ⟨iwj, hj, hport', hvalue', hpos⟩ := h.portIwi hp' hj
      exact ⟨iwj, hkept hj, hport', fun hpos => hvalue (hvalue' hpos), hpos⟩
  · rw [hiwis] at hj
    rcases update_some.mp hj with ⟨rfl, rfl⟩ | ⟨-, hj⟩
    · rw [hport] at hport'
      cases hport'
      exact ⟨_, hiports ▸ update_self _ _ _, rfl⟩
    · obtain ⟨iport', hp', hlink⟩ := h.iwiPort hj hport'
      obtain ⟨iport'', hp'', -, -, hsame⟩ := hnew hp'
      refine ⟨iport'', hp'', ?_⟩
      rw [hsame]
      · exact hlink
      · rintro rfl
        obtain rfl := some.inj (hp.symm.trans hp')
        rw [hnone] at hlink
        cases hlink
  · obtain ⟨iport', hp', hd⟩ := h.table (htable ▸ hk)
    obtain ⟨iport'', hp'', -, hd'', -⟩ := hnew hp'
    exact ⟨iport'', hp'', hd''.trans hd⟩
  · rw [htable]
    rcases hold hp' with ⟨rfl, rfl⟩ | ⟨-, hp'⟩
    · show g.deviceIdToIport.lookup iport.deviceId = _
      exact h.inTable hp
    · exact h.inTable hp'
  · rcases hold hp' with ⟨rfl, rfl⟩ | ⟨-, hp'⟩
    · exact .inr rfl
    · exact h.opened hp' hpos hd
  · rcases hold hp' with ⟨rfl, rfl⟩ | ⟨-, hp'⟩
    · exact absurd hzero (Nat.ne_of_gt hopen)
    · exact h.shut hp' hzero
  · rw [hfresh]
    rcases hold hp' with ⟨rfl, -⟩ | ⟨-, hp'⟩
    · exact Nat.lt_succ_of_lt (h.freshPort hp)
    · exact Nat.lt_succ_of_lt (h.freshPort hp')
  · rw [hfresh]
    rw [hiwis] at hj
    rcases update_some.mp hj with ⟨rfl, -⟩ | ⟨-, hj⟩
    · exact Nat.lt_succ_self _
    · exact Nat.lt_succ_of_lt (h.freshIwi hj)

theorem meets_removePort (hs : Sockets w.graph) (hports : Ports register (· = p) w.graph)
    (hp : w.graph.iports p = some iport) (hvalue : w.graph.fdToValue iport.sFd = some (.iport p))
    (hempty : iport.wsIdToIws = ∅)
    (hpages : ∀ i iwi, iport.iwi = some i → w.graph.iwis i = some iwi → iwi.pageNumToIpage = ∅) :
    Meets (removePort env p) w (fun _ w' => Wired register w' ∧ ∃ o ipages,
      Linked w.graph iport o ∧ w'.graph = { (((w.graph.takeValue iport.sFd).loseIwi o).shutPort p
        iport).clearFd iport.sFd with ipages := ipages }) E := by
  have hmem := hs.registered hvalue
  have hexact : Meets (smRemoveFd env iport.sFd) w (fun _ w' => ∃ o ipages,
      Linked w.graph iport o ∧ w'.graph = { (((w.graph.takeValue iport.sFd).loseIwi o).shutPort p
        iport).clearFd iport.sFd with ipages := ipages }) E := by
    rw [smRemoveFd, removeFdAt, meets_bind, meets_get, if_pos hmem, hvalue]
    rw [meets_bind, meets_link, meets_bind]
    have htaken := hports.takeValue hvalue
    refine (meets_iwdpIportClose (w := { w with graph := w.graph.takeValue iport.sFd })
      (hs.takeValue _) hp (hports.inTable hp) ?_ (.inl hempty) (.inl (Nat.succ_pos 2))).post
      fun _ w' h => ?_
    · intro i hlink
      obtain ⟨iwi, hi, -, hvalue, -⟩ := htaken.portIwi hp hlink
      exact ⟨iwi, hi, hvalue, .inl (hpages i iwi hlink hi)⟩
    · obtain ⟨w₁, iport₁, o, ipages, -, hsame, hp1, hl, hw'⟩ := h
      obtain rfl := hsame hempty
      obtain rfl := some.inj (hp.symm.trans hp1)
      rw [meets_bind, meets_link, meets_pure]
      refine ⟨o, ipages, ⟨hl.ptr, hl.iwi⟩, ?_⟩
      rw [hw']
      rfl
  rw [removePort, meets_bind, meets_getIport]
  refine ⟨fun iport' hp' => ?_, fun hnone => absurd (hp.symm.trans hnone) (by simp)⟩
  obtain rfl := some.inj (hp.symm.trans hp')
  refine Meets.bind (hexact.both (wired_removePort hs hports hvalue)) ?_
  rintro _ w' ⟨hw', hwired, -⟩
  exact ⟨hwired, hw'⟩

/-- A port is open for the device; everything else is as before. -/
structure Opened (deviceId : Str) (site : Site) (p : Ptr) (iport : Iport) (site₁ : Site) :
    Prop where
  devices : site₁.devices = site.devices
  strays : site₁.strays = site.strays
  name : site₁.names p = site.nameOf deviceId
  sockets : Sockets site₁.world.graph
  ports : Ports (registerOf site.devices) (· = p) site₁.world.graph
  port : site₁.world.graph.iports p = some iport
  deviceId : iport.deviceId = some deviceId
  iwi : iport.iwi = none
  clients : iport.wsIdToIws = ∅
  pos : 0 < iport.sFd
  value : site₁.world.graph.fdToValue iport.sFd = some (.iport p)
  fresh : iport.sFd ∉ site.world.graph.allFds
  allFds : site₁.world.graph.allFds = insert iport.sFd site.world.graph.allFds
  iwis : site₁.world.graph.iwis = site.world.graph.iwis

variable {site₁ : Site}

theorem Bound.opened (h : SiteWired site) (hdevices : site₁.devices = site.devices)
    (hb : Bound o deviceId site site₁) : ∃ p iport, Opened deviceId site p iport site₁ := by
  obtain ⟨-, -, hstrays, p, g, iport, fd, port, hport, hp, hzero, hpos, hnot, hname, hgraph⟩ := hb
  obtain ⟨hs, hports, hallFds, hiwis, -, iport', hp', hid⟩ := hport.links h.sockets h.ports
  obtain rfl := some.inj (hp.symm.trans hp')
  obtain ⟨hnone, hempty⟩ := hports.shut hp hzero
  refine ⟨p, { iport with sFd := fd, port := port }, ⟨hdevices, hstrays, hname, ?_, ?_, ?_, hid,
    hnone, hempty, hpos, ?_, hallFds ▸ hnot, ?_, ?_⟩⟩
  · rw [hgraph]
    exact hs.openPort hpos hnot port
  · rw [hgraph]
    exact hports.openPort hs hp hzero hpos hnot port
  · rw [hgraph]
    exact update_self _ _ _
  · rw [hgraph]
    exact update_self _ _ _
  · rw [hgraph, ← hallFds]
    rfl
  · rw [hgraph, ← hiwis]
    rfl

theorem portOf_shutPort {iport' : Iport} {d : Option Str}
    (hk : g.deviceIdToIport.lookup d = some p) (hid : iport.deviceId = d)
    (h : (g.shutPort p iport).portOf d = some iport') : iport'.sFd = 0 ∧ iport'.iwi = none := by
  rw [Graph.portOf, Graph.shutPort] at h
  split at h
  · rw [show (g.setIport p { iport with sFd := 0, wsIdToIws := ∅, iwi := none }).deviceIdToIport =
      g.deviceIdToIport from rfl, hk, bind_some] at h
    rcases update_some.mp h with ⟨-, rfl⟩ | ⟨hne, -⟩
    · exact ⟨rfl, rfl⟩
    · exact absurd rfl hne
  · dsimp only at h
    rw [hid, AList.lookup_erase] at h
    cases h

variable {site' : Site}

theorem Opened.nothingLeft (h : Opened deviceId site p iport site₁)
    {o : Option (Ptr × Iwi)} {ipages : Ptr → Option Ipage}
    (hk : g.deviceIdToIport.lookup (some deviceId) = some p) {iport₁ : Iport}
    (hid : iport₁.deviceId = some deviceId) (hfd : iport₁.sFd = iport.sFd)
    (hallFds : (g.loseIwi o).allFds = insert iport.sFd site.world.graph.allFds)
    (hiwis : (g.loseIwi o).iwis = site.world.graph.iwis) (hstrays : site'.strays = site.strays)
    (hw : site'.world.graph = { ((g.loseIwi o).shutPort p iport₁).clearFd iport₁.sFd with
      ipages := ipages }) : NothingLeft deviceId site site' := by
  have hsame : ((g.loseIwi o).shutPort p iport₁).allFds = (g.loseIwi o).allFds ∧
      ((g.loseIwi o).shutPort p iport₁).iwis = (g.loseIwi o).iwis := by
    rw [Graph.shutPort]
    split
    · exact ⟨rfl, rfl⟩
    · exact ⟨rfl, rfl⟩
  refine ⟨fun iport' hp' => ?_, ?_, hstrays, ?_⟩
  · rw [hw] at hp'
    refine portOf_shutPort (g := g.loseIwi o) ?_ hid hp'
    rw [(loseIwi_same g o).2.1, hk]
  · rw [hw]
    show ((g.loseIwi o).shutPort p iport₁).allFds.erase iport₁.sFd = _
    rw [hsame.1, hallFds, hfd, Finset.erase_insert h.fresh]
  · rw [hw]
    show ((g.loseIwi o).shutPort p iport₁).iwis = _
    rw [hsame.2, hiwis]

theorem Ports.lookup {busy : Ptr → Prop} (h : Ports register busy g) (hp : g.iports p = some iport)
    (hid : iport.deviceId = some deviceId) :
    g.deviceIdToIport.lookup (some deviceId) = some p := hid ▸ h.inTable hp

theorem deviceInfo_eq_some {deviceName : Option Str} {texts : DeviceTexts} {info : DeviceInfo} :
    DeviceInfo.new deviceNum iport deviceName texts = some info ↔
      ∃ name model os mac serial, deviceName = some name ∧ texts.productModel = some model ∧
        texts.iosVersion = some os ∧ texts.macAddr = some mac ∧ texts.serialNo = some serial ∧
        info = ⟨deviceNum, iport.port % 2 ^ 16, name.map toLower, model.map toLower, model, os, mac,
          serial, iport.sFd⟩ := by
  simp only [DeviceInfo.new, bind_eq_bind, bind_eq_some_iff, pure_def, some.injEq]
  constructor
  · rintro ⟨name, hname, model, hmodel, os, hos, mac, hmac, serial, hserial, rfl⟩
    exact ⟨name, model, os, mac, serial, hname, hmodel, hos, hmac, hserial, rfl⟩
  · rintro ⟨name, model, os, mac, serial, hname, hmodel, hos, hmac, hserial, rfl⟩
    exact ⟨name, hname, model, hmodel, os, hos, mac, hmac, serial, hserial, rfl⟩

theorem exists_deviceInfo (deviceNum : Int) (iport : Iport) (texts : DeviceTexts)
    (deviceName : Option Str) :
    (∃ info, DeviceInfo.new deviceNum iport (deviceName.or texts.deviceName) texts = some info) ↔
      texts.Complete deviceName := by
  constructor
  · rintro ⟨info, hinfo⟩
    obtain ⟨name, model, os, mac, serial, hname, hmodel, hos, hmac, hserial, -⟩ :=
      deviceInfo_eq_some.mp hinfo
    exact ⟨isSome_of_eq_some hname, isSome_of_eq_some hmodel,
      isSome_of_eq_some hos, isSome_of_eq_some hmac, isSome_of_eq_some hserial⟩
  · rintro ⟨hname, hmodel, hos, hmac, hserial⟩
    obtain ⟨name, hname⟩ := isSome_iff_exists.mp hname
    obtain ⟨model, hmodel⟩ := isSome_iff_exists.mp hmodel
    obtain ⟨os, hos⟩ := isSome_iff_exists.mp hos
    obtain ⟨mac, hmac⟩ := isSome_iff_exists.mp hmac
    obtain ⟨serial, hserial⟩ := isSome_iff_exists.mp hserial
    exact ⟨_, deviceInfo_eq_some.mpr ⟨name, model, os, mac, serial, hname, hmodel, hos, hmac,
      hserial, rfl⟩⟩

variable {texts : DeviceTexts}

theorem meets_addDevice {site₂ : Site} (h : Opened deviceId site p iport site₁)
    (hE : ¬ texts.Complete (site.nameOf deviceId) → E .noString)
    (hdevices : site₂.devices = site.devices) (hs : Sockets site₂.world.graph)
    (hports : Ports (registerOf site.devices) (· = p) site₂.world.graph)
    (hp : site₂.world.graph.iports p = some { iport with iwi := some i })
    (hvalue : site₂.world.graph.fdToValue iport.sFd = some (.iport p))
    (hi : site₂.world.graph.iwis i = some iwi) (hpos : 0 < iwi.wiFd) :
    Meets (addDevice deviceNum p ((site.nameOf deviceId).or texts.deviceName) texts) site₂
      (fun status site' => SiteWired site' ∧ status = .success ∧ Attached deviceId site' ∧
        texts.Complete (site.nameOf deviceId)) E := by
  rw [addDevice, meets_bind, meets_onWorld, meets_getIport]
  refine ⟨fun iport' hp' => ?_, fun hnone => absurd (hp.symm.trans hnone) nofun⟩
  obtain rfl := some.inj (hp.symm.trans hp')
  split
  · next hnone =>
    refine hE fun hcomplete => ?_
    obtain ⟨info, hinfo⟩ := (exists_deviceInfo _ _ texts _).mpr hcomplete
    exact absurd (hnone.symm.trans hinfo) nofun
  next info hinfo =>
  have hcomplete := (exists_deviceInfo _ _ texts _).mp ⟨info, hinfo⟩
  have hentry : info.sfd = iport.sFd ∧ info.port = iport.port % 2 ^ 16 := by
    obtain ⟨_, _, _, _, _, -, -, -, -, -, rfl⟩ := deviceInfo_eq_some.mp hinfo
    exact ⟨rfl, rfl⟩
  rw [meets_bind, meets_modify, meets_bind, meets_onWorld, meets_link, meets_pure]
  obtain ⟨iwi', hi', hport, hfd, -⟩ := hports.portIwi hp rfl
  obtain rfl := some.inj (hi.symm.trans hi')
  have hkin : Kin site₂.world.graph (site₂.world.graph.setIport p
      { iport with iwi := some i, isSticky := true }) := by
    refine ⟨map_update hp rfl, ?_, fun _ => rfl, fun _ => Iff.rfl, rfl, Nat.le_refl _⟩
    intro p' iport₁ iport₂ hp1 hp2 hzero hempty
    rcases update_some.mp hp2 with ⟨rfl, rfl⟩ | ⟨-, hp2⟩
    · obtain rfl := some.inj (hp.symm.trans hp1)
      exact hempty
    · obtain rfl := some.inj (hp1.symm.trans hp2)
      exact hempty
  refine ⟨⟨hs.setIport _ _, ?_⟩, rfl, ?_, hcomplete⟩
  · refine ((hports.grow ?_).kin hkin).settle (update_self _ _ _) (fun _ => hvalue) ?_ ?_
    · rintro d fd port ⟨info', hmem, heq⟩
      exact ⟨info', List.mem_append_left _ (hdevices ▸ hmem), heq⟩
    · rintro _ iwj ⟨⟩ hj
      obtain rfl := some.inj (hi.symm.trans hj)
      exact hpos
    · intro d _ _
      exact ⟨rfl, info, List.mem_append_right _ (List.mem_singleton_self info), hentry⟩
  · refine ⟨p, _, i, iwi, hports.lookup hp h.deviceId, update_self _ _ _, h.pos,
      Graph.watched_iff.mpr ⟨hs.registered hvalue, hvalue⟩, rfl, hi, hport, hpos,
      Graph.watched_iff.mpr ⟨hs.registered (hfd hpos), hfd hpos⟩, info,
      List.mem_append_right _ (List.mem_singleton_self info), hentry⟩

/-- The graph with a new inspector, which has no descriptor yet. -/
def Graph.newInspector (g : Graph) (p : Ptr) (iport : Iport) : Graph :=
  (Graph.setIwi { g with fresh := g.fresh + 1 } g.fresh ⟨some p, 0, none, none, 0, ∅, ∅⟩).setIport p
    { iport with iwi := some g.fresh }

theorem meets_newInspector (hp : w.graph.iports p = some iport) :
    Meets (newInspector p) w (fun i w' => i = w.graph.fresh ∧ w'.tick = w.tick ∧
      w'.graph = w.graph.newInspector p iport) E := by
  rw [newInspector, meets_bind, meets_malloc, meets_bind, meets_link, meets_bind, meets_getIport]
  refine ⟨fun iport' hp' => ?_, fun hnone => absurd (hp.symm.trans hnone) nofun⟩
  obtain rfl := some.inj (hp.symm.trans hp')
  exact ⟨rfl, rfl, rfl⟩

theorem meets_report {wiFd : Nat} (hi : w.graph.iwis i = some iwi) (hport : iwi.iport = some p)
    (hp : w.graph.iports p = some iport) {b : Bool} (hsends : ∀ n, env.sends n = b)
    {E : Fault → Prop} :
    Meets (report env i wiFd) w (fun ok w' => ok = b ∧ ∃ c, w'.graph =
      w.graph.setIwi i { iwi with wiFd := wiFd, connectionId := some c }) E := by
  rw [report, meets_bind, meets_ask, meets_bind, modifyIwi, meets_bind, meets_getIwi]
  refine ⟨fun iwi' hi' => ?_, fun hnone => absurd (hi.symm.trans hnone) (by simp)⟩
  obtain rfl := some.inj (hi.symm.trans hi')
  rw [meets_link, sendReportIdentifier, rpcSendMsg, meets_bind, meets_getIwi]
  have hself := Graph.setIwi_self w.graph i
    { iwi with wiFd := wiFd, connectionId := some (env.uuid w.tick) }
  refine ⟨fun iwi' hi' => ?_, fun hnone => absurd (hself.symm.trans hnone) (by simp)⟩
  obtain rfl := some.inj (hself.symm.trans hi')
  rw [meets_bind, meets_notNull]
  refine ⟨fun p' hport' => ?_, fun hnone => absurd (hport.symm.trans hnone) (by simp)⟩
  obtain rfl := some.inj (hport.symm.trans hport')
  rw [meets_bind, meets_getIport]
  refine ⟨fun _ _ => ?_, fun hnone => absurd (hp.symm.trans hnone) (by simp)⟩
  rw [meets_bind, meets_ask, meets_bind, meets_emit, meets_pure]
  exact ⟨hsends _, _, rfl⟩

theorem meets_startRegistered {site₂ : Site} (h : Opened deviceId site p iport site₁)
    {wiFd : Nat} (hpos : 0 < wiFd) (hnot : wiFd ∉ site₁.world.graph.allFds)
    (hdevices : site₂.devices = site.devices) (hstrays : site₂.strays = site.strays)
    (hgraph : site₂.world.graph = (site₁.world.graph.newInspector p iport).addFd wiFd
      (.iwi site₁.world.graph.fresh))

    (hE : o.reports = true → ¬ texts.Complete (site.nameOf deviceId) → E .noString)
    {env : Outside} (hsends : ∀ n, env.sends n = o.reports) :
    Meets (do
      if ← onWorld (report env site₁.world.graph.fresh wiFd) then
        addDevice deviceNum p ((site.nameOf deviceId).or texts.deviceName) texts
      else do
        onWorld (removePort env p)
        pure .success : SiteHandler AttachStatus) site₂
      (fun status site' => SiteWired site' ∧ AttachEnds (some deviceId) site status site' ∧
        (o.reports → texts.Complete (site.nameOf deviceId))) E := by
  have hi : site₂.world.graph.iwis site₁.world.graph.fresh =
      some ⟨some p, 0, none, none, 0, ∅, ∅⟩ := by
    rw [hgraph]
    exact update_self _ _ _
  have hp : site₂.world.graph.iports p =
      some { iport with iwi := some site₁.world.graph.fresh } := by
    rw [hgraph]
    exact update_self _ _ _
  rw [meets_bind, meets_onWorld]
  refine (meets_report hi rfl hp hsends).post fun ok w₃ ⟨hok, c, hw₃⟩ => ?_
  have hfresh : site.world.graph.iwis site₁.world.graph.fresh = none := by
    cases hnone : site.world.graph.iwis site₁.world.graph.fresh with
    | none => rfl
    | some iwi => exact absurd (h.ports.freshIwi (h.iwis ▸ hnone)) (Nat.lt_irrefl _)
  have hs₃ : Sockets w₃.graph := by
    rw [hw₃, hgraph]
    have hadded := h.sockets.addFd (v := .iwi site₁.world.graph.fresh) hpos hnot rfl rfl
      (fun _ iws hs => .inl ⟨iws, hs, rfl⟩) fun _ ifs hf => .inl ⟨ifs, hf, rfl⟩
    exact ⟨hadded.zero, hadded.registered, hadded.ws, hadded.fs⟩
  have hports₃ : Ports (registerOf site.devices) (· = p) w₃.graph := by
    have hport : Iwi.iport ⟨some p, wiFd, some c, none, 0, ∅, ∅⟩ = some p := rfl
    refine h.ports.addInspector h.sockets h.port h.pos h.iwi hport ?_ (.inr ⟨hpos, hnot, ?_⟩)
    · rw [hw₃, hgraph]
      exact ⟨rfl, update_idem _ _ _, rfl, rfl⟩
    · rw [hw₃, hgraph]
      rfl
  have hvalue₃ : w₃.graph.fdToValue iport.sFd = some (.iport p) := by
    rw [hw₃, hgraph]
    refine update_some.mpr (.inr ⟨?_, h.value⟩)
    rintro rfl
    exact hnot (h.sockets.registered h.value)
  have hp₃ : w₃.graph.iports p = some { iport with iwi := some site₁.world.graph.fresh } := by
    rw [hw₃]
    exact hp
  have hi₃ : w₃.graph.iwis site₁.world.graph.fresh =
      some ⟨some p, wiFd, some c, none, 0, ∅, ∅⟩ := by
    rw [hw₃]
    exact Graph.setIwi_self _ _ _
  cases hreports : o.reports with
  | true =>
    rw [hreports] at hok
    rw [hok, if_pos rfl]
    have hdevices₃ : Site.devices { site₂ with world := w₃ } = site.devices := hdevices
    refine (meets_addDevice h (hE hreports) hdevices₃ hs₃ hports₃ hp₃ hvalue₃ hi₃ hpos).post ?_
    rintro status site' ⟨hwired, rfl, hattached, hcomplete⟩
    refine ⟨hwired, ⟨nofun, ?_⟩, fun _ => hcomplete⟩
    rintro _ ⟨⟩
    exact .inl hattached
  | false =>
    rw [hreports] at hok
    rw [hok, if_neg nofun, meets_bind, meets_onWorld]
    refine (meets_removePort hs₃ hports₃ hp₃ hvalue₃ h.clients ?_).post fun _ w₄ hremoved => ?_
    · rintro _ iwi ⟨⟩ hi
      obtain rfl := some.inj (hi₃.symm.trans hi)
      rfl
    obtain ⟨hwired, lost, ipages, hlinked, hw₄⟩ := hremoved
    rw [meets_pure]
    refine ⟨hdevices ▸ hwired, ⟨nofun, ?_⟩, nofun⟩
    rintro _ ⟨⟩
    obtain ⟨⟨j, iwj⟩, rfl, rfl⟩ := map_eq_some_iff.mp hlinked.ptr
    obtain rfl := some.inj (hi₃.symm.trans (hlinked.iwi _ _ rfl))
    refine .inr (h.nothingLeft (g := w₃.graph.takeValue iport.sFd)
      (hports₃.lookup hp₃ h.deviceId) h.deviceId rfl ?_ ?_ hstrays hw₄)
    · rw [Graph.loseIwi, if_pos hpos, hw₃, hgraph]
      show (insert wiFd site₁.world.graph.allFds).erase wiFd = _
      rw [Finset.erase_insert hnot, h.allFds]
    · rw [Graph.loseIwi, if_pos hpos, hw₃, hgraph]
      show update (update (update site₁.world.graph.iwis _ _) _ _) _
        none = _
      rw [update_idem, update_idem, h.iwis, ← hfresh, update_eq_self]

/-- What an attach comes to with this condition. -/
def EndsIff (deviceId : Str) (site : Site) (cond : Prop) (status : AttachStatus) (site' : Site) :
    Prop := SiteWired site' ∧ (AttachEnds (some deviceId) site status site' ↔ cond)

theorem meets_startWith (h : Opened deviceId site p iport site₁)
    (hE : ¬ (o.registersInspector ∧ (o.reports → texts.Complete (site.nameOf deviceId))) → ∀ f, E f)
    (hsends : ∀ n, env.sends n = o.reports) :
    Meets (startWith env o deviceId deviceNum p texts) site₁ (EndsIff deviceId site
      (o.registersInspector ∧ (o.reports → texts.Complete (site.nameOf deviceId)))) E := by
  rw [startWith, meets_bind, meets_onWorld, meets_newFd, meets_bind, meets_get]
  dsimp only
  rw [h.name, meets_bind, meets_modify, meets_bind, meets_onWorld]
  have hpos := env.socket_pos site₁.world.tick site₁.world.graph.allFds
  have hnot := env.socket_unused site₁.world.tick site₁.world.graph.allFds
  generalize env.socket site₁.world.tick site₁.world.graph.allFds = wiFd at hpos hnot
  have hport : World.graph { site₁.world with tick := site₁.world.tick + 1 } =
      site₁.world.graph := rfl
  refine (meets_newInspector (hport ▸ h.port)).post ?_
  rintro i w₂ ⟨rfl, -, hw2⟩
  rw [meets_bind]
  refine meets_addFd (fun hyes => ?_) fun hno => ?_
  · refine meets_smAddFd_new h.sockets hnot (by rw [hw2]; rfl) (by rw [hw2]; rfl) ?_
    rw [if_pos rfl]
    refine (meets_startRegistered h hpos hnot ?_ ?_ ?_ ?_ hsends).post ?_
    · exact h.devices
    · exact h.strays
    · exact congrArg (Graph.addFd · wiFd (.iwi site₁.world.graph.fresh)) hw2
    · exact fun hreports hincomplete => hE (fun hc => hincomplete (hc.2 hreports)) _
    · rintro status site' ⟨hwired, hends, hcomplete⟩
      exact ⟨hwired, fun _ => ⟨hyes, hcomplete⟩, fun _ => hends⟩
  · rw [if_neg nofun, meets_bind, meets_onWorld]
    have hfault := hE fun hc => absurd (hno.symm.trans hc.1) nofun
    have hports2 : Ports (registerOf site.devices) (· = p) w₂.graph := by
      rw [hw2]
      exact h.ports.addInspector h.sockets h.port h.pos h.iwi rfl ⟨rfl, rfl, rfl, rfl⟩
        (.inl ⟨rfl, rfl⟩)
    have hs2 : Sockets w₂.graph := by
      rw [hw2]
      exact ⟨h.sockets.zero, h.sockets.registered, h.sockets.ws, h.sockets.fs⟩
    have hp2 : w₂.graph.iports p = some { iport with iwi := some site₁.world.graph.fresh } := by
      rw [hw2]
      exact update_self _ _ _
    have hvalue2 : w₂.graph.fdToValue iport.sFd = some (.iport p) := by
      rw [hw2]
      exact h.value
    rw [removePort, meets_bind, meets_getIport]
    refine ⟨fun iport' hp' => ?_, fun _ => hfault _⟩
    obtain rfl := some.inj (hp2.symm.trans hp')
    rw [meets_bind]
    refine (wired_removePort hs2 hports2 hvalue2).mono ?_ fun f _ => hfault f
    rintro _ w₃ ⟨hwired, -⟩
    exact ⟨h.devices ▸ hwired, fun hends => absurd rfl hends.1,
      fun hc => absurd (hno.symm.trans hc.1) nofun⟩

theorem meets_connectInspector (h : Opened deviceId site p iport site₁)

    (hE : ¬ (∀ texts, o.texts deviceId = some texts → o.registersInspector ∧
      (o.reports → texts.Complete (site.nameOf deviceId))) → ∀ f, E f)
    (hsends : ∀ n, env.sends n = o.reports) :
    Meets (connectInspector env o deviceId deviceNum) site₁ (EndsIff deviceId site
      (∀ texts, o.texts deviceId = some texts → o.registersInspector ∧
        (o.reports → texts.Complete (site.nameOf deviceId)))) E := by
  have hk := h.ports.lookup h.port h.deviceId
  rw [connectInspector, meets_bind, meets_get]
  rw [hk]
  dsimp only
  rw [meets_bind, meets_onWorld, meets_getIport]
  refine ⟨fun iport' hp' => ?_, fun hnone => absurd (h.port.symm.trans hnone) nofun⟩
  obtain rfl := some.inj (h.port.symm.trans hp')
  rw [h.iwi, if_neg nofun]
  cases htexts : o.texts deviceId with
  | none =>
    dsimp only
    rw [meets_bind, meets_onWorld]
    refine (meets_removePort h.sockets h.ports h.port h.value h.clients ?_).post
      fun _ w₂ hremoved => ?_
    · intro i iwi hlink
      rw [h.iwi] at hlink
      cases hlink
    obtain ⟨hwired, lost, ipages, hlinked, hw₂⟩ := hremoved
    have hlost : lost = none := map_eq_none_iff.mp (hlinked.ptr.trans h.iwi)
    subst hlost
    refine ⟨h.devices ▸ hwired, fun _ => nofun, fun _ => ⟨nofun, ?_⟩⟩
    rintro _ ⟨⟩
    exact .inr (h.nothingLeft (g := site₁.world.graph.takeValue iport.sFd) (o := none) hk
      h.deviceId rfl h.allFds h.iwis h.strays hw₂)
  | some texts =>
    have hiff : (o.registersInspector ∧ (o.reports → texts.Complete (site.nameOf deviceId))) ↔
        ∀ texts', some texts = some texts' → o.registersInspector ∧
          (o.reports → texts'.Complete (site.nameOf deviceId)) := by
      refine ⟨?_, fun hall => hall texts rfl⟩
      rintro hc _ ⟨⟩
      exact hc
    refine (meets_startWith h (fun hno => hE fun hall => hno ?_) hsends).post ?_
    · exact hall texts htexts
    · rintro status site' ⟨hwired, hends⟩
      exact ⟨hwired, hends.trans hiff⟩

theorem SiteWired.attached (h : SiteWired site)
    (hp : site.world.graph.portOf (some deviceId) = some iport) (hopen : 0 < iport.sFd) :
    Attached deviceId site := by
  obtain ⟨p, hk, hp⟩ := bind_eq_some_iff.mp hp
  obtain ⟨iport', hp', hid⟩ := h.ports.table hk
  obtain rfl := some.inj (hp.symm.trans hp')
  obtain ⟨hlink, hentry⟩ := (h.ports.opened hp hopen hid).resolve_right id
  obtain ⟨i, hlink⟩ := isSome_iff_exists.mp hlink
  obtain ⟨iwi, hi, hport, hvalue, hpos⟩ := h.ports.portIwi hp hlink
  have hfd := (h.ports.portFd hp hopen).resolve_right id
  have hpos := hpos.resolve_right id
  have hvalue := hvalue hpos
  exact ⟨p, iport, i, iwi, hk, hp, hopen, Graph.watched_iff.mpr ⟨h.sockets.registered hfd, hfd⟩,
    hlink, hi, hport, hpos, Graph.watched_iff.mpr ⟨h.sockets.registered hvalue, hvalue⟩, hentry⟩

theorem Unbound.ends (h : SiteWired site) (hdevices : site'.devices = site.devices)
    (hu : Unbound o deviceId site site') :
    SiteWired site' ∧ AttachEnds (some deviceId) site .success site' := by
  obtain ⟨-, hstrays, hgraph | ⟨p, hport, hclosed⟩⟩ := hu
  · have hwired : SiteWired site' := by
      rw [SiteWired, hdevices]
      exact h.same hgraph
    refine ⟨hwired, nofun, ?_⟩
    rintro _ ⟨⟩
    by_cases hopen : ∃ iport, site'.world.graph.portOf (some deviceId) = some iport ∧ 0 < iport.sFd
    · obtain ⟨iport, hp, hopen⟩ := hopen
      exact .inl (hwired.attached hp hopen)
    · refine .inr ⟨fun iport hp => ?_, by rw [hgraph], hstrays, by rw [hgraph]⟩
      have hzero : iport.sFd = 0 := Nat.eq_zero_of_not_pos fun hpos => hopen ⟨iport, hp, hpos⟩
      obtain ⟨p, -, hp⟩ := bind_eq_some_iff.mp hp
      exact ⟨hzero, (hwired.ports.shut hp hzero).1⟩
  · obtain ⟨hs, hports, hallFds, hiwis, hk, -⟩ := hport.links h.sockets h.ports
    have hwired : SiteWired site' := by
      rw [SiteWired, hdevices]
      exact ⟨hs, hports⟩
    refine ⟨hwired, nofun, ?_⟩
    rintro _ ⟨⟩
    refine .inr ⟨fun iport hp => ?_, hallFds, hstrays, hiwis⟩
    rw [portOf_some hk] at hp
    exact ⟨hclosed iport hp, (hports.shut hp (hclosed iport hp)).1⟩

theorem Lost.not_ends (h : SiteWired site) (hdevices : site'.devices = site.devices)
    (hl : Lost o deviceId site site') :
    SiteWired site' ∧ ¬ AttachEnds (some deviceId) site .success site' := by
  obtain ⟨-, -, hstrays, p, hport, hclosed⟩ := hl
  obtain ⟨hs, hports, -, -, hk, -⟩ := hport.links h.sockets h.ports
  refine ⟨?_, fun hends => ?_⟩
  · rw [SiteWired, hdevices]
    exact ⟨hs, hports⟩
  rcases hends.2 _ rfl with ⟨p', iport, _, _, hk', hp', hopen, -⟩ | hnothing
  · obtain rfl := some.inj (hk.symm.trans hk')
    exact absurd (hclosed iport hp') (Nat.ne_of_gt hopen)
  · exact hstrays hnothing.strays

theorem meets_onAttach (h : SiteWired site) :
    Meets (onAttach env (some deviceId) deviceNum o) site
      (EndsIff deviceId site (o.Clean site deviceId)) fun _ => ¬ o.Clean site deviceId := by
  rw [onAttach, meets_bind, meets_get]
  dsimp only
  refine Meets.bind (meets_listenFor h) fun ok site₁ ⟨hdevices, hcase⟩ => ?_
  rcases hcase with ⟨rfl, hu | hl⟩ | ⟨rfl, hb⟩
  · obtain ⟨hwired, hends⟩ := hu.ends h hdevices
    exact ⟨hwired, fun _ hbinds => absurd hbinds hu.1, fun _ => hends⟩
  · obtain ⟨hwired, hends⟩ := hl.not_ends h hdevices
    refine ⟨hwired, fun hyes => absurd hyes hends, fun hclean => ?_⟩
    exact absurd (hl.2.1.symm.trans (hclean hl.1).1) nofun
  · obtain ⟨p, iport, hopened⟩ := hb.opened h hdevices
    have hiff : o.Clean site deviceId ↔ ∀ texts, o.texts deviceId = some texts →
        o.registersInspector ∧ (o.reports → texts.Complete (site.nameOf deviceId)) :=
      ⟨fun hclean => (hclean hb.1).2, fun hall _ => ⟨hb.2.1, hall⟩⟩
    rw [if_pos rfl]
    refine (meets_connectInspector hopened (fun hno f => ?_) fun _ => rfl).post ?_
    · exact fun hclean => hno (hiff.mp hclean)
    · rintro status site' ⟨hwired, hends⟩
      exact ⟨hwired, hends.trans hiff.symm⟩

end Attach

/-! ## Every attach -/

theorem siteWired_start : SiteWired Site.start := ⟨sockets_start, ports_start _⟩

section Runs

variable {env : Outside} {site : Site}

theorem siteWired_step {site' : Site} {e : SiteEvent} (h : SiteWired site)
    (hstep : Site.step env site e = .ok site') : SiteWired site' := by
  cases e with
  | attach deviceId deviceNum o =>
    cases deviceId with
    | none =>
      cases hstep
      exact h
    | some deviceId =>
      obtain ⟨_, hwired, -⟩ := (meets_onAttach h).after_ok hstep
      exact hwired
  | other e he =>
    rw [Site.step] at hstep
    cases hw : Iwdp.step (env.avoiding site.strays) site.world e with
    | error f =>
      rw [hw] at hstep
      cases hstep
    | ok w =>
      rw [hw] at hstep
      cases hstep
      obtain ⟨_, hwired⟩ := (wired_handle e he site.world h).after_ok hw
      exact hwired

theorem Site.Reachable.wired (h : Site.Reachable env site) : SiteWired site := by
  obtain ⟨es, hrun⟩ := h
  exact Along.inv (P := fun _ _ => True) (fun _ _ _ hw _ hstep => siteWired_step hw hstep)
    (Along.of_forall fun _ _ => trivial) siteWired_start hrun

/-- **An attach is all or nothing exactly if it is clean.**  In every state that a run reaches, an
attach comes to an end without a `NULL`, returns no error but for a missing identifier, and leaves
a device that is attached or nothing at all, exactly if this holds: where a port is opened for the
device, its descriptor is registered, and where the inspector is connected, so is its descriptor,
and where it takes the report, all texts for the device manager are there. -/
theorem attachRight_iff (h : Site.Reachable env site) (deviceId : Option Str) (deviceNum : Int)
    (o : AttachOutcomes) : AttachRight env site deviceId deviceNum o ↔
      ∀ d, deviceId = some d → o.Clean site d := by
  cases deviceId with
  | none => exact ⟨fun _ => nofun, fun _ => ⟨.nullDeviceId, site, rfl, nofun, nofun⟩⟩
  | some deviceId =>
    have hmeets : Meets (onAttach env (some deviceId) deviceNum o) site
        (fun status site' => EndsIff deviceId site (o.Clean site deviceId) status site' ∧
          onAttach env (some deviceId) deviceNum o site = .ok (status, site'))
        fun _ => ¬ o.Clean site deviceId := (meets_onAttach h.wired).result
    rw [Meets] at hmeets
    have hclean : (∀ d, some deviceId = some d → o.Clean site d) ↔ o.Clean site deviceId := by
      refine ⟨fun hall => hall deviceId rfl, ?_⟩
      rintro hclean _ ⟨⟩
      exact hclean
    rw [hclean]
    cases hrun : onAttach env (some deviceId) deviceNum o site with
    | ok r =>
      rw [hrun] at hmeets
      refine ⟨?_, fun hclean => ⟨r.1, r.2, hrun, hmeets.1.2.mpr hclean⟩⟩
      rintro ⟨status, site', hrun', hends⟩
      rw [hrun] at hrun'
      cases hrun'
      exact hmeets.1.2.mp hends
    | error f =>
      rw [hrun] at hmeets
      refine ⟨?_, fun hclean => absurd hclean hmeets⟩
      rintro ⟨status, site', hrun', -⟩
      rw [hrun] at hrun'
      cases hrun'

end Runs

/-! ### Two devices -/

/-- Every step succeeds, and the device tells all texts. -/
def AttachOutcomes.generous : AttachOutcomes where
  selectPort _ := some (-1, 9222, 9322)
  listens _ := true
  registersPort := true
  connects := some ⟨some (ascii "Phone"), some (ascii "iPhone5,2"), some (ascii "6.1"),
    some (ascii "00:00:00:00:00:00"), some (ascii "C0000000000")⟩
  registersInspector := true
  reports := true

/-- A device whose attach succeeds. -/
theorem attachRight_device :
    AttachRight .generous Site.start (some (ascii "device")) 1 .generous := by
  refine (attachRight_iff ⟨[], rfl⟩ _ _ _).mpr ?_
  rintro _ ⟨⟩ -
  refine ⟨rfl, fun texts htexts => ⟨rfl, fun _ => ?_⟩⟩
  rw [AttachOutcomes.texts, if_neg (by decide)] at htexts
  cases htexts
  exact ⟨rfl, rfl, rfl, rfl, rfl⟩

/-- The simulator, with the same outcomes: there is no text to make an entry of. -/
theorem attachRight_refuted : ¬ ∀ env site, Site.Reachable env site →
    ∀ deviceId deviceNum o, AttachRight env site deviceId deviceNum o := by
  intro hall
  obtain ⟨status, site', hrun, -⟩ :=
    hall .generous Site.start ⟨[], rfl⟩ (some simulator) (-1) .generous
  have hfault : (onAttach .generous (some simulator) (-1) .generous Site.start).toOption.isSome =
      false := by decide +kernel
  rw [hrun] at hfault
  cases hfault

end IDeviceStack.WebkitProxy.Iwdp
