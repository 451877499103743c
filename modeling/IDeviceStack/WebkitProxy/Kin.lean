/-
# `WebkitProxy.Kin` — what messages and browsers leave alone

A message of an inspector changes pages and applications, and a browser links pages and opens
connections to a file server; the ports, the inspectors and the links between them stay as they
are.

**Proved here.**  Messages and requests for pages lead to a graph that is `Alike`, and when a
browser or a file server goes, the ports and the inspectors that are left are the same ones (`Kin`,
`removesClients`).  A descriptor belongs to one object only (`Sockets`).
-/
import IDeviceStack.WebkitProxy.Tables

namespace IDeviceStack.WebkitProxy.Iwdp

open Lib Libplist

/-! ## What messages and browsers leave alone -/

/-- Everything of a port but its clients, and whether it is sticky. -/
def Iport.links (iport : Iport) : Int × Nat × Option Str × Option Ptr :=
  (iport.port, iport.sFd, iport.deviceId, iport.iwi)

/-- The links of an inspector. -/
def Iwi.links (iwi : Iwi) : Option Ptr × Nat := (iwi.iport, iwi.wiFd)

/-- The descriptors of a device: the one of its port, and the one of its inspector. -/
def Value.OfDevice : Value → Prop
  | .iport _ => True
  | .iwi _ => True
  | _ => False

/-- The same ports and inspectors; a closed port gets no clients. -/
structure Kin (g g' : Graph) : Prop where
  iport : ∀ p, (g'.iports p).map Iport.links = (g.iports p).map Iport.links
  clients : ∀ {p iport iport'}, g.iports p = some iport → g'.iports p = some iport' →
    iport.sFd = 0 → iport.wsIdToIws = ∅ → iport'.wsIdToIws = ∅
  iwi : ∀ i, (g'.iwis i).map Iwi.links = (g.iwis i).map Iwi.links
  value : ∀ {fd v}, v.OfDevice → (g'.fdToValue fd = some v ↔ g.fdToValue fd = some v)
  table : g'.deviceIdToIport = g.deviceIdToIport
  fresh : g.fresh ≤ g'.fresh

theorem map_eq_some {α β : Type} {f : α → β} {x y : Option α} (h : x.map f = y.map f) {a : α}
    (hx : x = some a) : ∃ b, y = some b ∧ f a = f b := by
  rw [hx, Option.map_some, eq_comm, Option.map_eq_some_iff] at h
  obtain ⟨b, hy, hb⟩ := h
  exact ⟨b, hy, hb.symm⟩

section Kin

variable {g g' g'' : Graph}

theorem Kin.of_rfl (hiports : g'.iports = g.iports) (hiwis : g'.iwis = g.iwis)
    (hvalue : g'.fdToValue = g.fdToValue) (htable : g'.deviceIdToIport = g.deviceIdToIport)
    (hfresh : g.fresh ≤ g'.fresh) : Kin g g' where
  iport p := by rw [hiports]
  clients h h' _ hempty := by
    rw [hiports, h] at h'
    cases h'
    exact hempty
  iwi i := by rw [hiwis]
  value _ := by rw [hvalue]
  table := htable
  fresh := hfresh

theorem Kin.refl (g : Graph) : Kin g g := .of_rfl rfl rfl rfl rfl (Nat.le_refl _)

theorem Kin.trans (h : Kin g g') (h' : Kin g' g'') : Kin g g'' where
  iport p := (h'.iport p).trans (h.iport p)
  clients := fun {p iport iport''} hp hp'' hzero hempty => by
    obtain ⟨iport', hp', -⟩ := map_eq_some (h'.iport p) hp''
    have hlinks := h.iport p
    rw [hp, hp', Option.map_some, Option.map_some, Option.some.injEq] at hlinks
    have hfd : iport'.sFd = iport.sFd := congrArg (·.2.1) hlinks
    exact h'.clients hp' hp'' (hfd.trans hzero) (h.clients hp hp' hzero hempty)
  iwi i := (h'.iwi i).trans (h.iwi i)
  value hv := (h'.value hv).trans (h.value hv)
  table := h'.table.trans h.table
  fresh := Nat.le_trans h.fresh h'.fresh

theorem Kin.iport_of (h : Kin g g') {p : Ptr} {iport' : Iport} (hp : g'.iports p = some iport') :
    ∃ iport, g.iports p = some iport ∧ iport'.links = iport.links :=
  map_eq_some (h.iport p) hp

theorem Kin.iport_to (h : Kin g g') {p : Ptr} {iport : Iport} (hp : g.iports p = some iport) :
    ∃ iport', g'.iports p = some iport' ∧ iport.links = iport'.links :=
  map_eq_some (h.iport p).symm hp

theorem Kin.iwi_of (h : Kin g g') {i : Ptr} {iwi' : Iwi} (hi : g'.iwis i = some iwi') :
    ∃ iwi, g.iwis i = some iwi ∧ iwi'.links = iwi.links :=
  map_eq_some (h.iwi i) hi

theorem Kin.iwi_to (h : Kin g g') {i : Ptr} {iwi : Iwi} (hi : g.iwis i = some iwi) :
    ∃ iwi', g'.iwis i = some iwi' ∧ iwi.links = iwi'.links :=
  map_eq_some (h.iwi i).symm hi

end Kin

/-! ### Sockets of browsers and of file servers -/

/-- Descriptors are open; one of a websocket, or of a connection to a file server, is its own. -/
structure Sockets (g : Graph) : Prop where
  zero : 0 ∉ g.allFds
  registered : ∀ {fd v}, g.fdToValue fd = some v → fd ∈ g.allFds
  ws : ∀ {s iws}, g.iwss s = some iws →
    iws.wsFd ∈ g.allFds ∧ ∀ v, g.fdToValue iws.wsFd = some v → v = .iws s
  fs : ∀ {f ifs}, g.ifss f = some ifs →
    ifs.fsFd ∈ g.allFds ∧ ∀ v, g.fdToValue ifs.fsFd = some v → v = .ifs f

theorem sockets_start : Sockets Graph.empty where
  zero := Finset.notMem_empty 0
  registered := nofun
  ws := nofun
  fs := nofun

/-- The same but for pages, for who looks at them, and for what a browser may not close. -/
structure Alike (g g' : Graph) : Prop where
  iports : g'.iports = g.iports
  iwi : ∀ i, (g'.iwis i).map Iwi.links = (g.iwis i).map Iwi.links
  iws : ∀ s, (g'.iwss s).map Iws.wsFd = (g.iwss s).map Iws.wsFd
  ifs : ∀ f, (g'.ifss f).map Ifs.fsFd = (g.ifss f).map Ifs.fsFd
  value : g'.fdToValue = g.fdToValue
  allFds : g'.allFds = g.allFds
  table : g'.deviceIdToIport = g.deviceIdToIport
  fresh : g.fresh ≤ g'.fresh

section Alike

variable {g g' g'' : Graph}

theorem Alike.refl (g : Graph) : Alike g g :=
  ⟨rfl, fun _ => rfl, fun _ => rfl, fun _ => rfl, rfl, rfl, rfl, Nat.le_refl _⟩

theorem Alike.trans (h : Alike g g') (h' : Alike g' g'') : Alike g g'' where
  iports := h'.iports.trans h.iports
  iwi i := (h'.iwi i).trans (h.iwi i)
  iws s := (h'.iws s).trans (h.iws s)
  ifs f := (h'.ifs f).trans (h.ifs f)
  value := h'.value.trans h.value
  allFds := h'.allFds.trans h.allFds
  table := h'.table.trans h.table
  fresh := Nat.le_trans h.fresh h'.fresh

theorem Alike.kin (h : Alike g g') : Kin g g' where
  iport p := by rw [h.iports]
  clients hp hp' _ hempty := by
    rw [h.iports, hp] at hp'
    cases hp'
    exact hempty
  iwi := h.iwi
  value _ := by rw [h.value]
  table := h.table
  fresh := h.fresh

theorem Sockets.alike (hs : Sockets g) (h : Alike g g') : Sockets g' where
  zero := h.allFds ▸ hs.zero
  registered hfd := by
    rw [h.value] at hfd
    rw [h.allFds]
    exact hs.registered hfd
  ws hs' := by
    obtain ⟨iws, hiws, hfd⟩ := map_eq_some (h.iws _) hs'
    rw [h.value, h.allFds, hfd]
    exact hs.ws hiws
  fs hf' := by
    obtain ⟨ifs, hifs, hfd⟩ := map_eq_some (h.ifs _) hf'
    rw [h.value, h.allFds, hfd]
    exact hs.fs hifs

theorem map_update {α β : Type} {f : α → β} {heap : Ptr → Option α} {p : Ptr} {a b : α}
    (hp : heap p = some a) (hf : f b = f a) (p' : Ptr) :
    (Function.update heap p (some b) p').map f = (heap p').map f := by
  by_cases heq : p' = p
  · subst heq
    rw [Function.update_self, hp, Option.map_some, Option.map_some, hf]
  · rw [Function.update_of_ne heq]

theorem Alike.setIwi {i : Ptr} {iwi iwi' : Iwi} (hi : g.iwis i = some iwi)
    (hlinks : iwi'.links = iwi.links) : Alike g (g.setIwi i iwi') :=
  ⟨rfl, map_update hi hlinks, fun _ => rfl, fun _ => rfl, rfl, rfl, rfl, Nat.le_refl _⟩

theorem Alike.setIws {s : Ptr} {iws iws' : Iws} (hs : g.iwss s = some iws)
    (hfd : iws'.wsFd = iws.wsFd) : Alike g (g.setIws s iws') :=
  ⟨rfl, fun _ => rfl, map_update hs hfd, fun _ => rfl, rfl, rfl, rfl, Nat.le_refl _⟩

theorem Alike.setIfs {f : Ptr} {ifs ifs' : Ifs} (hf : g.ifss f = some ifs)
    (hfd : ifs'.fsFd = ifs.fsFd) : Alike g (g.setIfs f ifs') :=
  ⟨rfl, fun _ => rfl, fun _ => rfl, map_update hf hfd, rfl, rfl, rfl, Nat.le_refl _⟩

theorem Alike.ipages (ipages : Ptr → Option Ipage) : Alike g { g with ipages := ipages } :=
  ⟨rfl, fun _ => rfl, fun _ => rfl, fun _ => rfl, rfl, rfl, rfl, Nat.le_refl _⟩

end Alike

/-! ### Messages and devtools -/

section Handlers

variable {env : Outside} {g : Graph} {i q s : Ptr}

/-- The graph is like `g`. -/
abbrev LikeGraph (g : Graph) : World → Prop := OfGraph (Alike g)

theorem alike_of_quiet {α : Type} {m : Handler α}
    (hm : ∀ w0, Preserves (Quiet w0) AnyFault m) : Preserves (LikeGraph g) AnyFault m :=
  stable_of_quiet hm

theorem alike_follow {α : Type} {heap : Graph → Ptr → Option α} {gone : Fault} {p : Ptr} :
    Preserves (LikeGraph g) AnyFault (follow heap gone p) :=
  fun _ h => meets_follow.mpr ⟨fun _ _ => h, fun _ => trivial⟩

theorem alike_notNull {α : Type} {o : Option α} : Preserves (LikeGraph g) AnyFault (notNull o) :=
  fun _ h => meets_notNull.mpr ⟨fun _ _ => h, fun _ => trivial⟩

theorem alike_link {f : Graph → Graph} (hf : ∀ g, Alike g (f g)) :
    Preserves (LikeGraph g) AnyFault (link f) := fun w h => h.trans (hf w.graph)

theorem alike_modifyIwi {f : Iwi → Iwi} (hf : ∀ iwi, (f iwi).links = iwi.links) :
    Preserves (LikeGraph g) AnyFault (modifyIwi i f) := by
  intro w h
  rw [modifyIwi, meets_bind, meets_getIwi]
  exact ⟨fun iwi hi => h.trans (.setIwi hi (hf iwi)), fun _ => trivial⟩

theorem alike_modifyIpage {f : Ipage → Ipage} :
    Preserves (LikeGraph g) AnyFault (modifyIpage q f) :=
  alike_follow.bind fun _ => alike_link fun _ => .ipages _

theorem alike_iwdpStopDevtools : Preserves (LikeGraph g) AnyFault (iwdpStopDevtools env q) := by
  intro w h
  rw [iwdpStopDevtools, meets_bind, meets_getIpage]
  refine ⟨fun ipage hq => ?_, fun _ => trivial⟩
  split
  · exact h
  next s _ =>
  rw [meets_bind, meets_getOwner]
  refine ⟨fun iws hs => ?_, fun _ => trivial⟩
  split
  · exact h
  split
  · exact h
  rw [meets_bind, meets_getIport]
  refine ⟨fun iport _ => ?_, fun _ => trivial⟩
  split
  · exact h
  refine (quiet_tellClosed w (Quiet.refl w)).bind fun _ w1 hq1 => ?_
  rw [meets_bind, meets_link, meets_bind, meets_link, meets_pure]
  have hs1 : w1.graph.iwss s = some iws := by rw [hq1.graph, hs]
  have h1 : Alike g w1.graph := by
    rw [hq1.graph]
    exact h
  have hset : Alike w1.graph (w1.graph.setIws s { iws with ipage := none, pageNum := 0 }) :=
    .setIws hs1 rfl
  exact (h1.trans hset).trans (.ipages _)

theorem alike_takeFromOther {iwi : Iwi} {ipage : Ipage} :
    Preserves (LikeGraph g) AnyFault (takeFromOther env q iwi ipage) := by
  unfold takeFromOther
  split
  · exact preserves_pure _
  refine alike_notNull.bind fun p => alike_follow.bind fun _ => alike_follow.bind fun _ => ?_
  refine alike_iwdpStopDevtools.bind fun _ w h => ?_
  rw [meets_bind, meets_getOwner]
  exact ⟨fun iws2 hs => h.trans (.setIws hs rfl), fun _ => trivial⟩

theorem alike_iwdpStartDevtools : Preserves (LikeGraph g) AnyFault (iwdpStartDevtools env q s) := by
  refine alike_follow.bind fun iws => alike_follow.bind fun iport => ?_
  split
  · exact preserves_pure _
  refine alike_follow.bind fun iwi => alike_follow.bind fun ipage => ?_
  refine alike_takeFromOther.bind fun _ w h => ?_
  rw [meets_bind, meets_getIws]
  refine ⟨fun iws hs => ?_, fun _ => trivial⟩
  rw [meets_bind, meets_link]
  exact alike_modifyIpage.bind (fun _ => alike_of_quiet fun _ =>
    quiet_sendForwardSocketSetup env _ _ _ _ (fun _ => trivial) (Sound.all _)) _
    (h.trans (.setIws hs rfl))

theorem alike_iwdpOnDevtoolsRequest (resource : Str) :
    Preserves (LikeGraph g) AnyFault (iwdpOnDevtoolsRequest env s resource) := by
  refine alike_follow.bind fun iws => alike_follow.bind fun iport => ?_
  refine Preserves.bind ?_ fun found => ?_
  · unfold requestedPage
    split
    · exact preserves_pure _
    · exact alike_follow.bind fun _ => preserves_pure _
  split
  · exact alike_of_quiet fun _ => quiet_iwdpOnNotFound env (fun _ => trivial) (Sound.all _) _ _ _
  · exact alike_iwdpStartDevtools

theorem alike_dropPage (pageNum : Nat) :
    Preserves (LikeGraph g) AnyFault (dropPage env i q pageNum) := by
  refine alike_iwdpStopDevtools.bind fun _ => ?_
  refine Preserves.bind ?_ fun _ => alike_link fun _ => .ipages _
  exact alike_modifyIwi fun _ => rfl

theorem alike_iwdpRemoveAppId (appId : Str) :
    Preserves (LikeGraph g) AnyFault (iwdpRemoveAppId env i appId) := by
  intro w h
  rw [iwdpRemoveAppId, meets_bind, meets_getIwi]
  refine ⟨fun iwi hi => ?_, fun _ => trivial⟩
  split
  · exact h
  rw [meets_bind, meets_link]
  refine Preserves.bind (Preserves.forM fun q _ => ?_) (fun _ => preserves_pure _) _
    (h.trans (.setIwi hi rfl))
  refine alike_follow.bind fun ipage => ?_
  split
  · exact alike_dropPage _
  · exact preserves_pure _

theorem alike_sendForwardGetListing (c : Option Str) (appId : Str) :
    Preserves (LikeGraph g) AnyFault (sendForwardGetListing env i c appId) :=
  stable_sendForwardGetListing c appId

theorem alike_iwdpAddAppId (appId : Str) :
    Preserves (LikeGraph g) AnyFault (iwdpAddAppId env i appId) := by
  intro w h
  rw [iwdpAddAppId, meets_bind, meets_getIwi]
  refine ⟨fun iwi hi => ?_, fun _ => trivial⟩
  split
  · exact h
  rw [meets_bind, meets_link, meets_bind, meets_emit]
  exact alike_sendForwardGetListing _ _ _ (h.trans (.setIwi hi rfl))

theorem alike_rpcSetApp (app : RpcApp) :
    Preserves (LikeGraph g) AnyFault (rpcSetApp env i app) := by
  unfold rpcSetApp
  split
  · exact preserves_throw trivial
  · exact alike_modifyIwi fun _ => rfl

theorem alike_report (listed : List RpcApp) :
    Preserves (LikeGraph g) AnyFault (iwdpOnReportConnectedApplicationList env i listed) := by
  refine alike_follow.bind fun iwi => ?_
  split
  · exact preserves_pure _
  refine Preserves.bind (Preserves.forM fun oa _ => ?_) fun _ => Preserves.bind
    (Preserves.forM fun a _ => ?_) fun _ => preserves_pure _
  · split
    · exact preserves_pure _
    · exact (alike_iwdpRemoveAppId oa).bind fun _ => preserves_pure _
  · exact (alike_rpcSetApp a).bind fun _ => (alike_iwdpAddAppId _).bind fun _ => preserves_pure _

theorem alike_findPage (appId : Str) (pageId : Nat) (qs : List Ptr) :
    Preserves (LikeGraph g) AnyFault (findPage appId pageId qs) := by
  induction qs with
  | nil => exact preserves_pure _
  | cons q qs ih =>
    refine alike_follow.bind fun ipage => ?_
    split
    · exact preserves_pure _
    · exact ih

theorem alike_newPage (appId : Str) (pageId : Nat) :
    Preserves (LikeGraph g) AnyFault (newPage i appId pageId) := by
  intro w h
  rw [newPage, meets_bind, meets_malloc, meets_bind, meets_getIwi]
  refine ⟨fun iwi hi => ?_, fun _ => trivial⟩
  rw [meets_bind, meets_link, meets_bind, meets_link, meets_pure]
  have hfresh : Alike w.graph { w.graph with fresh := w.graph.fresh + 1 } :=
    ⟨rfl, fun _ => rfl, fun _ => rfl, fun _ => rfl, rfl, rfl, rfl, Nat.le_succ _⟩
  exact ((h.trans hfresh).trans (.ipages _)).trans (.setIwi hi rfl)

theorem alike_listPage (appId : Str) (ipages : List Ptr) (page : RpcPage) :
    Preserves (LikeGraph g) AnyFault (listPage i appId ipages page) := by
  refine (alike_findPage _ _ _).bind fun found => Preserves.bind ?_ fun q => ?_
  · unfold orNewPage
    split
    · exact preserves_pure _
    · exact alike_newPage _ _
  refine alike_modifyIpage.bind fun _ => ?_
  refine alike_follow.bind fun ipage => alike_follow.bind fun iwi => ?_
  refine Preserves.bind ?_ fun _ => alike_modifyIpage
  unfold loseClaimed
  split
  · exact preserves_pure _
  split
  · intro w h
    rw [meets_bind, meets_getOwner]
    exact ⟨fun iws hs => h.trans (.setIws hs rfl), fun _ => trivial⟩
  · exact preserves_pure _

theorem alike_iwdpOnApplicationSentListing (appId : Str) (pages : List RpcPage) :
    Preserves (LikeGraph g) AnyFault (iwdpOnApplicationSentListing env i appId pages) := by
  refine alike_follow.bind fun iwi => ?_
  split
  · exact preserves_pure _
  refine alike_follow.bind fun iport => ?_
  split
  · split
    · exact Preserves.bind (stable_same_graph fun _ => rfl)
        fun _ => alike_sendForwardGetListing _ _
    · exact preserves_pure _
  refine Preserves.bind (Preserves.forM fun page _ => alike_listPage _ _ page) fun _ => ?_
  refine Preserves.bind (Preserves.forM fun q _ => ?_) fun _ => preserves_pure _
  refine alike_follow.bind fun ipage => ?_
  split
  · exact preserves_pure _
  split
  · exact preserves_pure _
  · exact alike_dropPage _

theorem alike_onMessage (message : Message) :
    Preserves (LikeGraph g) AnyFault (onMessage env i message) := by
  cases message with
  | reportSetup =>
    exact alike_follow.bind fun _ => alike_notNull.bind fun _ => alike_follow.bind fun _ =>
      preserves_pure _
  | reportConnectedApplicationList listed => exact alike_report listed
  | applicationConnected app => exact (alike_rpcSetApp app).bind fun _ => alike_iwdpAddAppId _
  | applicationDisconnected app => exact alike_iwdpRemoveAppId _
  | applicationSentListing appId pages => exact alike_iwdpOnApplicationSentListing appId pages
  | applicationSentData destId data =>
    refine alike_follow.bind fun iwi => alike_notNull.bind fun p => ?_
    refine alike_follow.bind fun iport => ?_
    split
    · exact preserves_pure _
    · exact alike_of_quiet fun _ => quiet_sendFrame env (fun _ => trivial) (Sound.all _) _
  | applicationUpdated appId destId =>
    refine (alike_iwdpRemoveAppId appId).bind fun ok => ?_
    split
    · exact alike_iwdpAddAppId destId
    · exact preserves_pure _
  | reportConnectedDriverList => exact preserves_pure _

theorem alike_rpcRecvPlist (rpcDict : Plist) :
    Preserves (LikeGraph g) AnyFault (rpcRecvPlist env i rpcDict) := by
  unfold rpcRecvPlist
  split
  · exact preserves_throw trivial
  · exact preserves_pure _
  · exact alike_onMessage _

end Handlers

/-! ## Browsers that go -/

/-- Some websockets, connections to file servers and values of descriptors are gone. -/
structure Shrunk (g g' : Graph) : Prop where
  iws : ∀ {s iws'}, g'.iwss s = some iws' → ∃ iws, g.iwss s = some iws ∧ iws'.wsFd = iws.wsFd
  ifs : ∀ {f ifs'}, g'.ifss f = some ifs' → ∃ ifs, g.ifss f = some ifs ∧ ifs'.fsFd = ifs.fsFd
  value : ∀ {fd v}, g'.fdToValue fd = some v → g.fdToValue fd = some v

/-- The ports and the inspectors have stayed. -/
structure Fewer (g g' : Graph) : Prop extends Shrunk g g' where
  kin : Kin g g'

/-- After something went: what is left is in order. -/
structure Trimmed (g : Graph) (w : World) : Prop where
  fewer : Fewer g w.graph
  sockets : Sockets w.graph

section Trimmed

variable {env : Outside} {g g' g'' : Graph} {w w' : World}

theorem Alike.fewer (h : Alike g g') : Fewer g g' :=
  ⟨⟨fun hs => map_eq_some (h.iws _) hs, fun hf => map_eq_some (h.ifs _) hf,
    fun hv => h.value ▸ hv⟩, h.kin⟩

theorem Shrunk.trans (h : Shrunk g g') (h' : Shrunk g' g'') : Shrunk g g'' := by
  refine ⟨fun hs => ?_, fun hf => ?_, fun hv => h.value (h'.value hv)⟩
  · obtain ⟨iws', hs', hfd'⟩ := h'.iws hs
    obtain ⟨iws, hs, hfd⟩ := h.iws hs'
    exact ⟨iws, hs, hfd'.trans hfd⟩
  · obtain ⟨ifs', hf', hfd'⟩ := h'.ifs hf
    obtain ⟨ifs, hf, hfd⟩ := h.ifs hf'
    exact ⟨ifs, hf, hfd'.trans hfd⟩

theorem Fewer.trans (h : Fewer g g') (h' : Fewer g' g'') : Fewer g g'' :=
  ⟨h.toShrunk.trans h'.toShrunk, h.kin.trans h'.kin⟩

theorem Trimmed.refl (h : Sockets w.graph) : Trimmed w.graph w := ⟨(Alike.refl _).fewer, h⟩

theorem Trimmed.trans (h : Trimmed g w) (h' : Trimmed w.graph w') : Trimmed g w' :=
  ⟨h.fewer.trans h'.fewer, h'.sockets⟩

theorem Trimmed.alike (h : Trimmed g w) (ha : Alike w.graph w'.graph) : Trimmed g w' :=
  ⟨h.fewer.trans ha.fewer, h.sockets.alike ha⟩

theorem Trimmed.of_alike {α : Type} {m : Handler α} (h : Trimmed g w)
    (hm : Preserves (LikeGraph w.graph) AnyFault m) : Meets m w (fun _ => Trimmed g) AnyFault :=
  (hm w (Alike.refl _)).post fun _ _ ha => h.alike ha

theorem Sockets.takeValue (h : Sockets g) (fd : Nat) : Sockets (g.takeValue fd) where
  zero := h.zero
  registered hv := h.registered (update_none.mp hv).2
  ws hs := ⟨(h.ws hs).1, fun v hv => (h.ws hs).2 v (update_none.mp hv).2⟩
  fs hf := ⟨(h.fs hf).1, fun v hv => (h.fs hf).2 v (update_none.mp hv).2⟩

theorem Sockets.freeIws (h : Sockets g) (s : Ptr) : Sockets (g.freeIws s) :=
  ⟨h.zero, h.registered, fun hs => h.ws (update_none.mp hs).2, h.fs⟩

theorem Sockets.freeIfs (h : Sockets g) (f : Ptr) : Sockets (g.freeIfs f) :=
  ⟨h.zero, h.registered, h.ws, fun hf => h.fs (update_none.mp hf).2⟩

theorem Sockets.clearFd (h : Sockets g) {fd : Nat} (hvalue : g.fdToValue fd = none)
    (hws : ∀ s iws, g.iwss s = some iws → iws.wsFd ≠ fd)
    (hfs : ∀ f ifs, g.ifss f = some ifs → ifs.fsFd ≠ fd) : Sockets (g.clearFd fd) where
  zero hmem := h.zero (Finset.mem_of_mem_erase hmem)
  registered hv := by
    refine Finset.mem_erase.mpr ⟨?_, h.registered hv⟩
    rintro rfl
    rw [Graph.clearFd, hvalue] at hv
    cases hv
  ws hs := ⟨Finset.mem_erase.mpr ⟨hws _ _ hs, (h.ws hs).1⟩, (h.ws hs).2⟩
  fs hf := ⟨Finset.mem_erase.mpr ⟨hfs _ _ hf, (h.fs hf).1⟩, (h.fs hf).2⟩

theorem Fewer.freeIws (g : Graph) (s : Ptr) : Fewer g (g.freeIws s) where
  kin := .of_rfl rfl rfl rfl rfl (Nat.le_refl _)
  iws hs := ⟨_, (update_none.mp hs).2, rfl⟩
  ifs hf := ⟨_, hf, rfl⟩
  value := id

theorem Fewer.freeIfs (g : Graph) (f : Ptr) : Fewer g (g.freeIfs f) where
  kin := .of_rfl rfl rfl rfl rfl (Nat.le_refl _)
  iws hs := ⟨_, hs, rfl⟩
  ifs hf := ⟨_, (update_none.mp hf).2, rfl⟩
  value := id

theorem Fewer.clearFd (g : Graph) (fd : Nat) : Fewer g (g.clearFd fd) where
  kin := .of_rfl rfl rfl rfl rfl (Nat.le_refl _)
  iws hs := ⟨_, hs, rfl⟩
  ifs hf := ⟨_, hf, rfl⟩
  value := id

theorem Fewer.takeValue {fd : Nat} (hfd : ∀ v, g.fdToValue fd = some v → ¬ v.OfDevice) :
    Fewer g (g.takeValue fd) where
  kin := by
    refine ⟨(Kin.refl g).iport, (Kin.refl g).clients, fun _ => rfl, fun {fd' v} hv => ?_, rfl,
      Nat.le_refl _⟩
    refine update_none.trans ⟨And.right, fun hvalue => ⟨?_, hvalue⟩⟩
    rintro rfl
    exact hfd v hvalue hv
  iws hs := ⟨_, hs, rfl⟩
  ifs hf := ⟨_, hf, rfl⟩
  value hv := (update_none.mp hv).2

theorem Fewer.unregister {p : Ptr} {iport : Iport} (hp : g.iports p = some iport) (k : Str) :
    Fewer g (g.setIport p { iport with wsIdToIws := iport.wsIdToIws.erase k }) where
  kin := by
    refine ⟨map_update hp rfl, fun {p' iport1 iport'} hp1 hp' _ hempty => ?_, fun _ => rfl,
      fun _ => Iff.rfl, rfl, Nat.le_refl _⟩
    rcases update_some.mp hp' with ⟨rfl, rfl⟩ | ⟨-, hp'⟩
    · rw [hp] at hp1
      cases hp1
      show iport.wsIdToIws.erase k = ∅
      rw [hempty]
      rfl
    · rw [hp1] at hp'
      cases hp'
      exact hempty
  iws hs := ⟨_, hs, rfl⟩
  ifs hf := ⟨_, hf, rfl⟩
  value := id

theorem Sockets.setIport (h : Sockets g) (p : Ptr) (iport : Iport) : Sockets (g.setIport p iport) :=
  ⟨h.zero, h.registered, h.ws, h.fs⟩

section Close

variable {removeFd : Nat → Handler Bool}

/-- What `sm_remove_fd` does to a descriptor that is no device's. -/
def RemovesClients (removeFd : Nat → Handler Bool) : Prop :=
  ∀ fd w, Sockets w.graph → (∀ v, w.graph.fdToValue fd = some v → ¬ v.OfDevice) →
    Meets (removeFd fd) w (fun _ => Trimmed w.graph) AnyFault

variable (hremove : RemovesClients removeFd)

include hremove

theorem trimmed_removeIfOpen {fd : Nat} (h : Trimmed g w)
    (hfd : ∀ v, w.graph.fdToValue fd = some v → ¬ v.OfDevice) :
    Meets (removeIfOpen removeFd fd) w (fun _ => Trimmed g) AnyFault := by
  unfold removeIfOpen
  split
  · exact (hremove fd w h.sockets hfd).bind fun _ w' h' => h.trans h'
  · exact h

theorem trimmed_removeWs {s : Ptr} {iws : Iws} (h : Trimmed g w) (hs : w.graph.iwss s = some iws) :
    Meets (removeIfOpen removeFd iws.wsFd) w (fun _ => Trimmed g) AnyFault := by
  refine trimmed_removeIfOpen hremove h fun v hv => ?_
  rw [(h.sockets.ws hs).2 v hv]
  exact id

theorem trimmed_iwdpIfsClose (f : Ptr) (h : Trimmed g w) :
    Meets (iwdpIfsClose removeFd f) w (fun _ w' => Trimmed g w' ∧ w'.graph.ifss f = none)
      AnyFault := by
  have hfree : ∀ {w1 : World}, Trimmed g w1 →
      Trimmed g { w1 with graph := w1.graph.freeIfs f } := fun h1 =>
    h1.trans ⟨.freeIfs _ f, h1.sockets.freeIfs f⟩
  rw [iwdpIfsClose, meets_bind, meets_getIfs]
  refine ⟨fun ifs _ => ?_, fun _ => trivial⟩
  split
  · exact ⟨hfree h, Function.update_self _ _ _⟩
  next s _ =>
  rw [meets_bind, meets_getClient]
  refine ⟨fun iws hs => ?_, fun _ => trivial⟩
  have hforget : Meets (forgetFile s f iws) w (fun _ w1 => Trimmed g w1 ∧
      ∃ iws1, w1.graph.iwss s = some iws1 ∧ iws1.wsFd = iws.wsFd) AnyFault := by
    unfold forgetFile
    split
    · exact ⟨h.alike (.setIws hs rfl), _, Graph.setIws_self _ _ _, rfl⟩
    · exact ⟨h, iws, hs, rfl⟩
  refine hforget.bind fun _ w1 ⟨h1, iws1, hs1, hfd1⟩ => ?_
  rw [meets_bind, meets_link, ← hfd1]
  have h2 := hfree h1
  refine (trimmed_removeWs hremove (Trimmed.refl h2.sockets) (s := s) hs1).bind
    fun _ w3 h3 => ⟨h2.trans h3, ?_⟩
  cases hf : w3.graph.ifss f with
  | none => rfl
  | some ifs' =>
    obtain ⟨ifs, hf, -⟩ := h3.fewer.ifs hf
    exact absurd rfl (update_none.mp hf).1

theorem trimmed_iwdpIwsClose (s : Ptr) (h : Trimmed g w) :
    Meets (iwdpIwsClose env removeFd s) w (fun _ w' => Trimmed g w' ∧ w'.graph.iwss s = none)
      AnyFault := by
  rw [iwdpIwsClose, meets_bind, meets_getIws]
  refine ⟨fun iws _ => ?_, fun _ => trivial⟩
  have hpage : Meets (closePage env s iws.ipage) w (fun _ => Trimmed g) AnyFault := by
    refine h.of_alike ?_
    unfold closePage
    split
    · exact preserves_pure _
    · refine alike_follow.bind fun ipage => ?_
      split
      · exact alike_iwdpStopDevtools.bind fun _ => preserves_pure _
      · exact preserves_pure _
  refine hpage.bind fun _ w1 h1 => ?_
  have hunregister : Meets (unregisterIws s iws) w1 (fun _ => Trimmed g) AnyFault := by
    rw [unregisterIws, meets_bind, meets_getIport]
    refine ⟨fun iport hp => ?_, fun _ => trivial⟩
    split
    · exact h1.trans ⟨.unregister hp _, h1.sockets.setIport _ _⟩
    · exact h1
  refine hunregister.bind fun _ w2 h2 => ?_
  have hfile : Meets (closeFile removeFd iws.ifs) w2 (fun _ => Trimmed g) AnyFault := by
    unfold closeFile
    split
    · exact h2
    next f _ =>
    rw [meets_bind, meets_getIfs]
    refine ⟨fun ifs hf => ?_, fun _ => trivial⟩
    rw [meets_bind, meets_link]
    refine trimmed_removeIfOpen hremove (h2.alike (.setIfs hf rfl)) fun v hv => ?_
    rw [(h2.sockets.fs hf).2 v hv]
    exact id
  refine hfile.bind fun _ w3 h3 => ?_
  exact ⟨h3.trans ⟨.freeIws _ s, h3.sockets.freeIws s⟩, Function.update_self _ _ _⟩

end Close

theorem Trimmed.close {fd : Nat} {v : Value} (h : Sockets g) (hfd : g.fdToValue fd = some v)
    (hv : ¬ v.OfDevice) (h' : Trimmed (g.takeValue fd) w)
    (hws : ∀ s, v = .iws s → w.graph.iwss s = none)
    (hfs : ∀ f, v = .ifs f → w.graph.ifss f = none) :
    Trimmed g { w with graph := w.graph.clearFd fd } := by
  have htake : Fewer g (g.takeValue fd) := .takeValue fun v' hv' => by
    rw [hfd] at hv'
    cases hv'
    exact hv
  refine ⟨(htake.trans h'.fewer).trans (.clearFd _ fd), h'.sockets.clearFd ?_ ?_ ?_⟩
  · cases hvalue : w.graph.fdToValue fd with
    | none => rfl
    | some v' => exact absurd rfl (update_none.mp (h'.fewer.value hvalue)).1
  · rintro s iws hs rfl
    obtain ⟨iws0, hs0, heq⟩ := h'.fewer.iws hs
    rw [heq] at hfd
    rw [hws s ((h.ws hs0).2 v hfd)] at hs
    cases hs
  · rintro f ifs hf rfl
    obtain ⟨ifs0, hf0, heq⟩ := h'.fewer.ifs hf
    rw [heq] at hfd
    rw [hfs f ((h.fs hf0).2 v hfd)] at hf
    cases hf

theorem removesClients (levels : Nat) : RemovesClients (removeFdAt env levels) := by
  induction levels with
  | zero => exact fun _ _ _ _ => trivial
  | succ levels ih =>
    intro fd w h hfd
    rw [removeFdAt, meets_bind, meets_get]
    split
    · split
      · trivial
      next v hvalue =>
      have hv := hfd v hvalue
      have htake : Trimmed (w.graph.takeValue fd) { w with graph := w.graph.takeValue fd } :=
        ⟨(Alike.refl _).fewer, h.takeValue fd⟩
      rw [meets_bind, meets_link]
      cases v with
      | idl => exact Trimmed.close h hvalue hv htake nofun nofun
      | iport p => exact absurd trivial hv
      | iwi i => exact absurd trivial hv
      | iws s =>
        refine (trimmed_iwdpIwsClose ih s htake).bind fun _ w' ⟨h', hgone⟩ => ?_
        refine Trimmed.close h hvalue hv h' ?_ nofun
        rintro _ ⟨⟩
        exact hgone
      | ifs f =>
        refine (trimmed_iwdpIfsClose ih f htake).bind fun _ w' ⟨h', hgone⟩ => ?_
        refine Trimmed.close h hvalue hv h' nofun ?_
        rintro _ ⟨⟩
        exact hgone
    · exact Trimmed.refl h

end Trimmed

end IDeviceStack.WebkitProxy.Iwdp
