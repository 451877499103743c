/-
# `Usbmuxd.Invariant` — what holds between two events of the daemon

Three things: the lists and heaps fit together (`Shape`), the connections and the
clients agree (`Linked`), and the ledger of every client says that it was released
once or not at all (`Books`).

A handler breaks `Linked` for the connection and the client it works on.  A `Scope`
names these two, and the locks that are held; `Inv` is the invariant apart from
them.  It also says what may be counted on: `gate`, that no client connects
to a device that is not active yet, and `memory`, that `realloc` succeeds.

**Proved here.**  What a write to one object does to the invariant.
-/
import IDeviceStack.Usbmuxd.Daemon

namespace IDeviceStack.Usbmuxd.Daemon

open Lib Function

/-! ## Definitions -/

/-- `dev->connections` of the device at `d` has the connection at `c`. -/
def World.Lists (w : World) (d c : Ptr) : Prop :=
  ∃ dev slots, w.devices d = some dev ∧ dev.connections = some slots ∧ c ∈ slots.elems

/-- A client that wants a connection, or has one. -/
def Busy (s : ClientState) : Prop := s = .connecting1 ∨ s = .connecting2 ∨ s = .connected

/-- The states of a connection and of its client.  While the result is on its way to the client,
no ACK is due. -/
def Matched (m : MuxConnection) (s : ClientState) : Prop :=
  (m.state = .connecting ∧ s = .connecting1) ∨
    (m.state = .connected ∧ s = .connecting2 ∧ m.ackPending = false ∧ m.txAcked = m.txAck) ∨
    (m.state = .connected ∧ s = .connected)

/-- What is counted on, the locks that are held, the connection and the client that a handler has in
its hands, and the device that is being removed. -/
structure Scope where
  gate : Prop
  memory : Prop
  deviceLock : Bool
  clientLock : Bool
  conn : Option Ptr
  client : Option Ptr
  retiring : Option Ptr

/-- Nothing is going on. -/
def Scope.idle (gate memory : Prop) : Scope := ⟨gate, memory, false, false, none, none, none⟩

/-- The lists have live objects on them, each once, and pointers are new when they are given. -/
structure Shape (w : World) : Prop where
  devLive : ∀ d, d ∈ w.deviceList.elems ↔ (w.devices d).isSome = true
  devNodup : w.deviceList.elems.Nodup
  ids : ∀ d d' dev dev', w.devices d = some dev → w.devices d' = some dev' → dev.id = dev'.id →
    d = d'
  idsBelow : ∀ d dev, w.devices d = some dev → dev.id < w.nextDeviceId
  ready : ∀ d dev, w.devices d = some dev →
    (dev.ready = false ↔ dev.state = .init) ∧ (dev.ready = true → dev.connections.isSome = true)
  slotsNodup : ∀ d dev slots, w.devices d = some dev → dev.connections = some slots →
    slots.elems.Nodup
  cliLive : ∀ k, k ∈ w.clientList.elems ↔ (w.clients k).isSome = true
  cliNodup : w.clientList.elems.Nodup
  connLive : ∀ d c, w.Lists d c → ∃ conn, w.conns c = some conn ∧ conn.dev = d
  below : ∀ p, w.fresh ≤ p →
    w.devices p = none ∧ w.conns p = none ∧ w.clients p = none ∧ w.ledger p = Ledger.blank
  clientBelow : ∀ c conn k, w.conns c = some conn → conn.client = some k → k < w.fresh

/-- The connections and the clients agree. -/
structure Linked (v : Scope) (w : World) : Prop where
  paired : ∀ d c, some c ≠ v.conn → w.Lists d c → ∃ dev conn k cl, w.devices d = some dev ∧
    w.conns c = some conn ∧ conn.client = some k ∧ w.clients k = some cl ∧
    cl.connectDevice = dev.id ∧ Matched conn.mux cl.state
  single : ∀ c c' conn conn' k, w.conns c = some conn → w.conns c' = some conn' →
    conn.client = some k → conn'.client = some k → c = c'
  busy : ∀ c conn k cl, some c ≠ v.conn → w.conns c = some conn → conn.client = some k →
    w.clients k = some cl → Busy cl.state
  awake : ∀ k cl, some k ≠ v.client → w.clients k = some cl → cl.state ≠ .dead
  ports : ∀ d c c' conn conn', w.Lists d c → w.Lists d c' → w.conns c = some conn →
    w.conns c' = some conn' → conn.mux.sport = conn'.mux.sport → c = c'
  portNonzero : ∀ d c conn, w.Lists d c → w.conns c = some conn → conn.mux.sport ≠ 0
  known : ∀ k cl, w.clients k = some cl → Busy cl.state → cl.connectDevice < w.nextDeviceId
  listed : v.gate → ∀ c conn, some c ≠ v.conn → w.conns c = some conn → w.Lists conn.dev c
  early : v.gate → w.early = false
  gated : v.gate → ∀ k cl d dev, w.clients k = some cl → Busy cl.state → w.devices d = some dev →
    dev.id = cl.connectDevice → dev.state ≠ .init
  served : v.gate → v.memory → ∀ k cl, some k ≠ v.client → w.clients k = some cl →
    Busy cl.state → ∃ c conn, w.conns c = some conn ∧ conn.client = some k
  undead : ∀ d dev, w.devices d = some dev → dev.state = .dead → v.retiring = some d

/-! ## The books -/

/-- The packet with the result of a request. -/
def resultReply (env : Outside) (version tag result : Nat) (memory : Bool) : Reply :=
  if version = 1 then
    ⟨tag, messagePlist, (env.xml (.result result)).val, (env.xml (.result result)).property, memory⟩
  else
    ⟨tag, messageResult, (payload32 result).val, (payload32 result).property, memory⟩

/-- The replies among the bytes on a socket. -/
def replyBytes : List Wire → List UInt8
  | [] => []
  | .reply bytes :: ws => bytes ++ replyBytes ws
  | .raw _ :: ws => replyBytes ws

def Wire.isRaw : Wire → Bool
  | .reply _ => false
  | .raw _ => true

/-- The last packet that was queued is the good news of a connection. -/
def EndsWithResult (env : Outside) (queued : List (List UInt8)) : Prop :=
  ∃ before version tag memory,
    queued = before ++ [(resultReply env version tag resultOk memory).bytes version]

/-- When bytes of the device go out on a socket, all replies have gone out, and the last of them
was the result of the connect request. -/
def Ledger.Ordered (env : Outside) (l : Ledger) : Prop :=
  ∀ before bytes rest, l.wire = before ++ .raw bytes :: rest →
    replyBytes before = l.queued.flatten ∧ EndsWithResult env l.queued

/-- A live client and its ledger. -/
structure ClientOk (env : Outside) (cl : Client) (l : Ledger) : Prop where
  accepted : l.accepted = true
  closes : l.closes = 0
  removals : l.removals = 0
  ibFrees : l.ibFrees = if cl.ibNull then 1 else 0
  obFrees : l.obFrees = if cl.obNull then 1 else 0
  ibNull : cl.ibNull = true → cl.state = .connecting2 ∨ cl.state = .connected ∨ cl.state = .dead
  obNull : cl.obNull = true → cl.state = .connected
  muted : cl.state = .connecting2 → cl.ibNull = true
  sent : replyBytes l.wire ++ cl.ob = l.queued.flatten
  raw : cl.state = .connected ∨ ∀ x ∈ l.wire, x.isRaw = false
  drained : cl.state = .connected → cl.ob = []
  result : cl.state = .connecting2 ∨ cl.state = .connected → EndsWithResult env l.queued
  ordered : l.Ordered env

/-- The ledger of a client that was released. -/
structure Released (env : Outside) (l : Ledger) : Prop where
  closes : l.closes = 1
  removals : l.removals = 1
  ibFrees : l.ibFrees = 1
  obFrees : l.obFrees = 1
  ordered : l.Ordered env

structure Books (env : Outside) (w : World) : Prop where
  live : ∀ k cl, w.clients k = some cl → ClientOk env cl (w.ledger k)
  gone : ∀ k, (w.ledger k).accepted = true → w.clients k = none → Released env (w.ledger k)

structure Inv (env : Outside) (v : Scope) (w : World) : Prop where
  shape : Shape w
  linked : Linked v w
  books : Books env w
  deviceLock : w.deviceLock = v.deviceLock
  clientLock : w.clientLock = v.clientLock

/-! ## Worlds that differ in nothing of this -/

/-- The same but for the sequence numbers, the clock and `early`. -/
structure Quiet (w w' : World) : Prop where
  devices : w'.devices = w.devices
  deviceList : w'.deviceList = w.deviceList
  conns : w'.conns = w.conns
  clients : w'.clients = w.clients
  clientList : w'.clientList = w.clientList
  deviceLock : w'.deviceLock = w.deviceLock
  clientLock : w'.clientLock = w.clientLock
  nextDeviceId : w'.nextDeviceId = w.nextDeviceId
  fresh : w'.fresh = w.fresh
  ledger : w'.ledger = w.ledger

theorem Quiet.refl (w : World) : Quiet w w := ⟨rfl, rfl, rfl, rfl, rfl, rfl, rfl, rfl, rfl, rfl⟩

theorem Quiet.trans {w w' w'' : World} (h : Quiet w w') (h' : Quiet w' w'') : Quiet w w'' :=
  ⟨h'.devices.trans h.devices, h'.deviceList.trans h.deviceList, h'.conns.trans h.conns,
    h'.clients.trans h.clients, h'.clientList.trans h.clientList,
    h'.deviceLock.trans h.deviceLock, h'.clientLock.trans h.clientLock,
    h'.nextDeviceId.trans h.nextDeviceId, h'.fresh.trans h.fresh, h'.ledger.trans h.ledger⟩

theorem Quiet.eq {w w' : World} (h : Quiet w w') :
    w' = { w with seqs := w'.seqs, tick := w'.tick, early := w'.early } := by
  obtain ⟨h1, h2, h3, h4, h5, h6, h7, h8, h9, h10⟩ := h
  cases w
  cases w'
  simp_all

theorem Shape.idle {w : World} (h : Shape w) (seqs : Ptr → U16 × U16) (tick : Nat) (early : Bool) :
    Shape { w with seqs := seqs, tick := tick, early := early } :=
  ⟨h.devLive, h.devNodup, h.ids, h.idsBelow, h.ready, h.slotsNodup, h.cliLive, h.cliNodup,
    h.connLive, h.below, h.clientBelow⟩

theorem Linked.idle {v : Scope} {w : World} (h : Linked v w) (seqs : Ptr → U16 × U16) (tick : Nat)
    {early : Bool} (he : v.gate → early = false) :
    Linked v { w with seqs := seqs, tick := tick, early := early } :=
  ⟨h.paired, h.single, h.busy, h.awake, h.ports, h.portNonzero, h.known, h.listed, he, h.gated,
    h.served, h.undead⟩

variable {env : Outside} {v : Scope} {w w' : World}

theorem Inv.quiet (h : Inv env v w) (hq : Quiet w w') (he : v.gate → w'.early = false) :
    Inv env v w' := by
  rw [hq.eq]
  exact ⟨h.shape.idle _ _ _, h.linked.idle _ _ he, ⟨h.books.live, h.books.gone⟩, h.deviceLock,
    h.clientLock⟩

theorem Inv.asked (h : Inv env v w) : Inv env v w.asked :=
  h.quiet ⟨rfl, rfl, rfl, rfl, rfl, rfl, rfl, rfl, rfl, rfl⟩ h.linked.early

/-! ## One object is written -/

section Fields

variable (w : World) (c d k x : Ptr) (conn : Conn) (cl : Client) (dev : Device)
  (f : Ledger → Ledger)

@[grind =]
theorem setConn_conns : (w.setConn c conn).conns x = if x = c then some conn else w.conns x :=
  update_apply _ _ _ _

@[grind =]
theorem setClient_clients : (w.setClient k cl).clients x = if x = k then some cl else w.clients x :=
  update_apply _ _ _ _

@[grind =]
theorem setDev_devices : (w.setDev d dev).devices x = if x = d then some dev else w.devices x :=
  update_apply _ _ _ _

@[grind =]
theorem note_ledger : (w.note k f).ledger x = if x = k then f (w.ledger k) else w.ledger x :=
  update_apply _ _ _ _

@[grind =]
theorem lists_setConn : (w.setConn c conn).Lists d x ↔ w.Lists d x := Iff.rfl

end Fields

variable {c : Ptr} {conn conn' : Conn}

theorem Shape.setConn (h : Shape w) (hc : w.conns c = some conn) (hdev : conn'.dev = conn.dev)
    (hclient : conn'.client = conn.client) : Shape (w.setConn c conn') := by
  refine { h with connLive := ?_, below := ?_, clientBelow := ?_ }
  · intro d x hx
    obtain ⟨old, hold, hd⟩ := h.connLive d x hx
    grind
  · intro p hp
    obtain ⟨h1, h2, h3, h4⟩ := h.below p hp
    exact ⟨h1, by grind, h3, h4⟩
  · intro x old k hx hk
    have hbelow := h.clientBelow x
    show k < w.fresh
    grind

theorem Linked.setConn (h : Linked v w) (hc : w.conns c = some conn) (hdev : conn'.dev = conn.dev)
    (hclient : conn'.client = conn.client) (hsport : conn'.mux.sport = conn.mux.sport)
    (hmatch : some c ≠ v.conn → ∀ s, Matched conn.mux s → Matched conn'.mux s) :
    Linked v (w.setConn c conn') := by
  refine { h with
    paired := ?_, single := ?_, busy := ?_, ports := ?_, portNonzero := ?_, listed := ?_,
    served := ?_ }
  · intro d x hx hl
    obtain ⟨dev, old, k, cl, h1, h2, h3, h4, h5, h6⟩ := h.paired d x hx hl
    by_cases hxc : x = c
    · subst hxc
      refine ⟨dev, conn', k, cl, h1, by grind, by grind, h4, h5, by grind⟩
    · exact ⟨dev, old, k, cl, h1, by grind, h3, h4, h5, h6⟩
  · have hsingle := h.single
    grind
  · intro x old k cl hx hold hk hcl
    have hbusy := h.busy x
    have hcl' : w.clients k = some cl := hcl
    grind
  · intro d x y ox oy hx hy hox hoy hport
    have hports := h.ports d x y
    grind
  · intro d x ox hx hox
    have hport := h.portNonzero d x
    grind
  · intro hg x ox hx hox
    have hlisted := h.listed hg x
    grind
  · intro hg hm k cl hk hcl hb
    obtain ⟨x, old, hx, hk'⟩ := h.served hg hm k cl hk hcl hb
    by_cases hxc : x = c
    · exact ⟨c, conn', by grind, by grind⟩
    · exact ⟨x, old, by grind, hk'⟩

theorem Inv.setConn (h : Inv env v w) (hc : w.conns c = some conn) (hdev : conn'.dev = conn.dev)
    (hclient : conn'.client = conn.client) (hsport : conn'.mux.sport = conn.mux.sport)
    (hmatch : some c ≠ v.conn → ∀ s, Matched conn.mux s → Matched conn'.mux s) :
    Inv env v (w.setConn c conn') :=
  ⟨h.shape.setConn hc hdev hclient, h.linked.setConn hc hdev hclient hsport hmatch,
    ⟨h.books.live, h.books.gone⟩, h.deviceLock, h.clientLock⟩

theorem Inv.setMux (h : Inv env v w) (hc : w.conns c = some conn) (mux : MuxConnection)
    (hsport : mux.sport = conn.mux.sport)
    (hmatch : some c ≠ v.conn → ∀ s, Matched conn.mux s → Matched mux s) :
    Inv env v (w.setConn c (conn.withMux mux)) :=
  have hset : ∀ conn', conn' = conn.withMux mux → Inv env v (w.setConn c conn') := by
    rintro conn' rfl
    exact h.setConn hc rfl rfl hsport hmatch
  hset _ rfl

variable {k : Ptr} {cl cl' : Client}

theorem Shape.setClient (h : Shape w) (hk : w.clients k = some cl) (f : Ledger → Ledger) :
    Shape ((w.setClient k cl').note k f) := by
  refine { h with cliLive := ?_, below := ?_ }
  · intro x
    have hlive := h.cliLive x
    show x ∈ w.clientList.elems ↔ ((w.setClient k cl').clients x).isSome = true
    grind
  · intro p hp
    obtain ⟨h1, h2, h3, h4⟩ := h.below p hp
    refine ⟨h1, h2, ?_, ?_⟩
    · show (w.setClient k cl').clients p = none
      grind
    · have hpk : p ≠ k := by grind
      rw [note_ledger, if_neg hpk]
      exact h4

theorem Linked.setClient (h : Linked v w) (hk : w.clients k = some cl)
    (hdevice : cl'.connectDevice = cl.connectDevice) (hbusy : Busy cl'.state → Busy cl.state)
    (hstays : (∃ c conn, some c ≠ v.conn ∧ w.conns c = some conn ∧ conn.client = some k) →
      Busy cl'.state)
    (hmatch : ∀ c conn, some c ≠ v.conn → w.conns c = some conn → conn.client = some k →
      Matched conn.mux cl.state → Matched conn.mux cl'.state)
    (hawake : some k ≠ v.client → cl'.state ≠ .dead)
    (f : Ledger → Ledger) : Linked v ((w.setClient k cl').note k f) := by
  have hclients : ∀ x, ((w.setClient k cl').note k f).clients x =
      if x = k then some cl' else w.clients x := fun x => setClient_clients w k x cl'
  have hother := h.busy
  refine { h with paired := ?_, busy := ?_, awake := ?_, known := ?_, gated := ?_, served := ?_ }
  · intro d x hx hl
    obtain ⟨dev, old, k', cl0, h1, h2, h3, h4, h5, h6⟩ := h.paired d x hx hl
    by_cases hkk : k' = k
    · subst hkk
      exact ⟨dev, old, k', cl', h1, h2, h3, by grind, by grind, by grind⟩
    · exact ⟨dev, old, k', cl0, h1, h2, h3, by grind, h5, h6⟩
  · intro x old k' cl0 hx hold hk' hcl0
    have hold' : w.conns x = some old := hold
    by_cases hkk : k' = k
    · grind
    · exact h.busy x old k' cl0 hx hold' hk' (by grind)
  · have hawake' := h.awake
    grind
  · intro x cl0 hx hb
    have hknown := h.known x
    show cl0.connectDevice < w.nextDeviceId
    grind
  · intro hg x cl0 d dev hx hb hd hid
    have hgated := h.gated hg x
    have hd' : w.devices d = some dev := hd
    grind
  · intro hg hm x cl0 hx hcl0 hb
    have hserved := h.served hg hm x
    by_cases hxk : x = k
    · exact hserved cl hx (by grind) (by grind)
    · exact hserved cl0 hx (by grind) hb

theorem Books.setClient (h : Books env w) (f : Ledger → Ledger)
    (hok : ClientOk env cl' (f (w.ledger k))) : Books env ((w.setClient k cl').note k f) := by
  constructor
  · intro x cl0 hx
    have hlive := h.live x
    by_cases hxk : x = k
    · subst hxk
      rw [note_ledger, if_pos rfl]
      rw [show ((w.setClient x cl').note x f).clients x = some cl' from update_self _ _ _]
        at hx
      cases hx
      exact hok
    · rw [note_ledger, if_neg hxk]
      exact hlive cl0 ((update_of_ne hxk _ _).symm.trans hx)
  · intro x hacc hx
    have hxk : x ≠ k := by
      rintro rfl
      rw [show ((w.setClient x cl').note x f).clients x = some cl' from update_self _ _ _]
        at hx
      cases hx
    rw [note_ledger, if_neg hxk] at hacc ⊢
    exact h.gone x hacc ((update_of_ne hxk _ _).symm.trans hx)

theorem Inv.setClient (h : Inv env v w) (hk : w.clients k = some cl)
    (hdevice : cl'.connectDevice = cl.connectDevice) (hbusy : Busy cl'.state → Busy cl.state)
    (hstays : (∃ c conn, some c ≠ v.conn ∧ w.conns c = some conn ∧ conn.client = some k) →
      Busy cl'.state)
    (hmatch : ∀ c conn, some c ≠ v.conn → w.conns c = some conn → conn.client = some k →
      Matched conn.mux cl.state → Matched conn.mux cl'.state)
    (hawake : some k ≠ v.client → cl'.state ≠ .dead)
    (f : Ledger → Ledger) (hok : ClientOk env cl' (f (w.ledger k))) :
    Inv env v ((w.setClient k cl').note k f) :=
  ⟨h.shape.setClient hk f, h.linked.setClient hk hdevice hbusy hstays hmatch hawake f,
    h.books.setClient f hok, h.deviceLock, h.clientLock⟩

theorem Inv.touchClient (h : Inv env v w) (hk : w.clients k = some cl)
    (hdevice : cl'.connectDevice = cl.connectDevice) (hstate : cl'.state = cl.state)
    (f : Ledger → Ledger) (hok : ClientOk env cl' (f (w.ledger k))) :
    Inv env v ((w.setClient k cl').note k f) := by
  refine h.setClient hk hdevice (fun hb => hstate ▸ hb) ?_ ?_ ?_ f hok
  · rintro ⟨c, conn, hc, hconn, hclient⟩
    rw [hstate]
    exact h.linked.busy c conn k cl hc hconn hclient hk
  · intro c conn _ _ _ hm
    rwa [hstate]
  · intro hne
    rw [hstate]
    exact h.linked.awake k cl hne hk

/-! ## The hands of a handler -/

theorem Inv.take (h : Inv env v w) (hconn : v.conn = none) (hclient : v.client = none)
    (c k : Option Ptr) : Inv env { v with conn := c, client := k } w := by
  have hl := h.linked
  have hc : ∀ x : Ptr, some x ≠ v.conn := by
    intro x hx
    rw [hconn] at hx
    cases hx
  have hk : ∀ x : Ptr, some x ≠ v.client := by
    intro x hx
    rw [hclient] at hx
    cases hx
  refine ⟨h.shape, ?_, h.books, h.deviceLock, h.clientLock⟩
  exact ⟨fun d x _ => hl.paired d x (hc x), hl.single, fun x conn k cl _ => hl.busy x conn k cl (hc x),
    fun x cl _ => hl.awake x cl (hk x), hl.ports, hl.portNonzero, hl.known,
    fun hg x conn _ => hl.listed hg x conn (hc x), hl.early, hl.gated,
    fun hg hm x cl _ => hl.served hg hm x cl (hk x), hl.undead⟩

theorem Inv.putClient (h : Inv env v w)
    (hk : ∀ k cl, v.client = some k → w.clients k = some cl → cl.state ≠ .dead ∧
      (v.gate → v.memory → Busy cl.state →
        ∃ c conn, w.conns c = some conn ∧ conn.client = some k)) :
    Inv env { v with client := none } w := by
  have hl := h.linked
  refine ⟨h.shape, { hl with awake := ?_, served := ?_ }, h.books, h.deviceLock, h.clientLock⟩
  · intro k cl _ hcl
    by_cases hv : some k = v.client
    · exact (hk k cl hv.symm hcl).1
    · exact hl.awake k cl hv hcl
  · intro hg hm k cl _ hcl hb
    by_cases hv : some k = v.client
    · exact (hk k cl hv.symm hcl).2 hg hm hb
    · exact hl.served hg hm k cl hv hcl hb

theorem Inv.putConn (h : Inv env v w)
    (hpaired : ∀ d c, v.conn = some c → w.Lists d c → ∃ dev conn k cl, w.devices d = some dev ∧
      w.conns c = some conn ∧ conn.client = some k ∧ w.clients k = some cl ∧
      cl.connectDevice = dev.id ∧ Matched conn.mux cl.state)
    (hbusy : ∀ c conn k cl, v.conn = some c → w.conns c = some conn → conn.client = some k →
      w.clients k = some cl → Busy cl.state)
    (hlisted : v.gate → ∀ c conn, v.conn = some c → w.conns c = some conn → w.Lists conn.dev c) :
    Inv env { v with conn := none } w := by
  have hl := h.linked
  refine ⟨h.shape, { hl with paired := ?_, busy := ?_, listed := ?_ }, h.books, h.deviceLock,
    h.clientLock⟩
  · intro d c _ hc
    by_cases hv : some c = v.conn
    · exact hpaired d c hv.symm hc
    · exact hl.paired d c hv hc
  · intro c conn k cl _
    by_cases hv : some c = v.conn
    · exact hbusy c conn k cl hv.symm
    · exact hl.busy c conn k cl hv
  · intro hg c conn _
    by_cases hv : some c = v.conn
    · exact hlisted hg c conn hv.symm
    · exact hl.listed hg c conn hv

/-! ## Locks -/

theorem Inv.lockDevices (h : Inv env v w) (b : Bool) :
    Inv env { v with deviceLock := b } { w with deviceLock := b } :=
  ⟨{ h.shape with }, { h.linked with }, ⟨h.books.live, h.books.gone⟩, rfl, h.clientLock⟩

theorem Inv.lockClients (h : Inv env v w) (b : Bool) :
    Inv env { v with clientLock := b } { w with clientLock := b } :=
  ⟨{ h.shape with }, { h.linked with }, ⟨h.books.live, h.books.gone⟩, h.deviceLock, rfl⟩

theorem Inv.unlockDevices (h : Inv env { v with deviceLock := true } w)
    (hlock : v.deviceLock = false) : Inv env v { w with deviceLock := false } := by
  cases v
  cases hlock
  exact h.lockDevices false

theorem Inv.unlockClients (h : Inv env { v with clientLock := true } w)
    (hlock : v.clientLock = false) : Inv env v { w with clientLock := false } := by
  cases v
  cases hlock
  exact h.lockClients false

theorem Inv.retire (h : Inv env v w) (hr : v.retiring = none) (d : Option Ptr) :
    Inv env { v with retiring := d } w := by
  refine ⟨h.shape, { h.linked with undead := ?_ }, h.books, h.deviceLock, h.clientLock⟩
  intro x dev hx hdead
  have hx' := h.linked.undead x dev hx hdead
  rw [hr] at hx'
  cases hx'

/-! ## A connection is dropped -/

/-- The connection at `c` is off the list of its device, and freed. -/
def World.dropConn (w : World) (d : Ptr) (dev : Device) (slots : Collection) (c : Ptr) : World :=
  { w.setDev d { dev with connections := some (slots.remove c) } with
    conns := update w.conns c none }

section Drop

variable {d c : Ptr} {dev : Device} {slots : Collection} {conn : Conn}

@[grind =]
theorem dropConn_conns (x : Ptr) :
    (w.dropConn d dev slots c).conns x = if x = c then none else w.conns x :=
  update_apply _ _ _ _

@[grind =]
theorem dropConn_devices (x : Ptr) : (w.dropConn d dev slots c).devices x =
    if x = d then some { dev with connections := some (slots.remove c) } else w.devices x :=
  update_apply _ _ _ _

theorem lists_dropConn (h : Shape w) (hd : w.devices d = some dev) (hs : dev.connections = some slots)
    (hc : w.conns c = some conn) (hdev : conn.dev = d) (d' x : Ptr) :
    (w.dropConn d dev slots c).Lists d' x ↔ x ≠ c ∧ w.Lists d' x := by
  have hnodup := h.slotsNodup d dev slots hd hs
  constructor
  · rintro ⟨dev', slots', hd', hs', hx⟩
    rw [dropConn_devices] at hd'
    by_cases hdd : d' = d
    · rw [if_pos hdd] at hd'
      cases hd'
      cases hs'
      rw [Collection.mem_remove hnodup] at hx
      exact ⟨hx.1, dev, slots, hdd ▸ hd, hs, hx.2⟩
    · rw [if_neg hdd] at hd'
      have hl : w.Lists d' x := ⟨dev', slots', hd', hs', hx⟩
      refine ⟨?_, hl⟩
      rintro rfl
      obtain ⟨conn', hconn', hdev'⟩ := h.connLive d' x hl
      grind
  · rintro ⟨hne, dev', slots', hd', hs', hx⟩
    by_cases hdd : d' = d
    · subst hdd
      rw [hd] at hd'
      cases hd'
      rw [hs] at hs'
      cases hs'
      exact ⟨_, slots.remove c, update_self _ _ _, rfl,
        (Collection.mem_remove hnodup).mpr ⟨hne, hx⟩⟩
    · exact ⟨dev', slots', by rw [dropConn_devices, if_neg hdd]; exact hd', hs', hx⟩

theorem Shape.dropConn (h : Shape w) (hd : w.devices d = some dev)
    (hs : dev.connections = some slots) (hc : w.conns c = some conn) (hdev : conn.dev = d) :
    Shape (w.dropConn d dev slots c) := by
  have hlists := lists_dropConn h hd hs hc hdev
  have hlive := h.devLive
  have hready := h.ready
  refine { h with
    devLive := ?_, ids := ?_, idsBelow := ?_, ready := ?_, slotsNodup := ?_, connLive := ?_,
    below := ?_, clientBelow := ?_ }
  · intro x
    show x ∈ w.deviceList.elems ↔ _
    grind
  · have hids := h.ids
    grind
  · intro x dev' hx
    have hbelow := h.idsBelow x
    show dev'.id < w.nextDeviceId
    grind
  · intro x dev' hx
    have hx' := hready x
    grind
  · intro x dev' slots' hx hs'
    have hnodup := h.slotsNodup x
    by_cases hxd : x = d
    · rw [dropConn_devices, if_pos hxd] at hx
      cases hx
      cases hs'
      exact Collection.nodup_remove (h.slotsNodup d dev slots hd hs)
    · rw [dropConn_devices, if_neg hxd] at hx
      exact hnodup dev' slots' hx hs'
  · intro d' x hx
    rw [hlists] at hx
    obtain ⟨conn', hconn', hdev'⟩ := h.connLive d' x hx.2
    exact ⟨conn', by grind, hdev'⟩
  · intro p hp
    obtain ⟨h1, h2, h3, h4⟩ := h.below p hp
    exact ⟨by grind, by grind, h3, h4⟩
  · intro x conn' k hx hk
    have hbelow := h.clientBelow x
    show k < w.fresh
    grind

theorem Linked.dropConn (h : Linked v w) (hshape : Shape w) (hd : w.devices d = some dev)
    (hs : dev.connections = some slots) (hc : w.conns c = some conn) (hdev : conn.dev = d)
    (hv : v.conn = some c)
    (hserved : v.gate → v.memory → ∀ k cl, some k ≠ v.client → conn.client = some k →
      w.clients k = some cl → ¬ Busy cl.state) :
    Linked { v with conn := none } (w.dropConn d dev slots c) := by
  have hlists := lists_dropConn hshape hd hs hc hdev
  have hhole : ∀ x, x ≠ c → some x ≠ v.conn := by
    intro x hx
    rw [hv]
    simpa using hx
  refine { h with
    paired := ?_, single := ?_, busy := ?_, ports := ?_, portNonzero := ?_, listed := ?_,
    gated := ?_, served := ?_, undead := ?_ }
  · intro d' x _ hx
    rw [hlists] at hx
    obtain ⟨dev', conn', k, cl, h1, h2, h3, h4, h5, h6⟩ := h.paired d' x (hhole x hx.1) hx.2
    by_cases hdd : d' = d
    · refine ⟨{ dev with connections := some (slots.remove c) }, conn', k, cl, by grind, by grind,
        h3, h4, ?_, h6⟩
      grind
    · exact ⟨dev', conn', k, cl, by grind, by grind, h3, h4, h5, h6⟩
  · have hsingle := h.single
    grind
  · intro x conn' k cl _ hx hk hcl
    have hbusy := h.busy x conn' k cl
    have hcl' : w.clients k = some cl := hcl
    grind
  · intro d' x y cx cy hx hy hcx hcy hport
    have hports := h.ports d' x y cx cy
    rw [hlists] at hx hy
    grind
  · intro d' x cx hx hcx
    have hport := h.portNonzero d' x cx
    rw [hlists] at hx
    grind
  · intro hg x cx _ hx
    have hlisted := h.listed hg x cx
    rw [hlists]
    grind
  · intro hg k cl d' dev' hcl hb hd' hid
    have hgated := h.gated hg k cl
    have hcl' : w.clients k = some cl := hcl
    grind
  · intro hg hm k cl hk hcl hb
    obtain ⟨x, conn', hx, hclient⟩ := h.served hg hm k cl hk hcl hb
    have hno := hserved hg hm k cl hk
    refine ⟨x, conn', ?_, hclient⟩
    have hcl' : w.clients k = some cl := hcl
    grind
  · intro d' dev' hd'
    have hundead := h.undead d'
    grind

theorem Inv.dropConn (h : Inv env v w) (hd : w.devices d = some dev)
    (hs : dev.connections = some slots) (hc : w.conns c = some conn) (hdev : conn.dev = d)
    (hv : v.conn = some c)
    (hserved : v.gate → v.memory → ∀ k cl, some k ≠ v.client → conn.client = some k →
      w.clients k = some cl → ¬ Busy cl.state) :
    Inv env { v with conn := none } (w.dropConn d dev slots c) :=
  ⟨h.shape.dropConn hd hs hc hdev, h.linked.dropConn h.shape hd hs hc hdev hv hserved,
    ⟨h.books.live, h.books.gone⟩, h.deviceLock, h.clientLock⟩

end Drop

end IDeviceStack.Usbmuxd.Daemon
