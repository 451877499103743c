/-
# `Usbmuxd.Updates` — objects come and go

What the invariant says when a client is accepted or released, a connection is made,
listed or dropped, and a device is plugged in, changed or taken off the list.
-/
import IDeviceStack.Usbmuxd.Invariant

namespace IDeviceStack.Usbmuxd.Daemon

open Lib Function

variable {env : Outside} {v : Scope} {w : World}

/-! ## Clients -/

/-- The ledger after the end of `client_close`. -/
def Ledger.released (l : Ledger) (cl : Client) : Ledger :=
  { l with
    closes := l.closes + 1
    removals := l.removals + 1
    obFrees := if cl.obNull then l.obFrees else l.obFrees + 1
    ibFrees := if cl.ibNull then l.ibFrees else l.ibFrees + 1 }

/-- The client at `k` is released. -/
def World.dropClient (w : World) (k : Ptr) (cl : Client) : World :=
  { w with
    clients := update w.clients k none
    clientList := w.clientList.remove k
    ledger := update w.ledger k ((w.ledger k).released cl) }

theorem ClientOk.released {cl : Client} {l : Ledger} (h : ClientOk env cl l) :
    Released env (l.released cl) := by
  refine ⟨?_, ?_, ?_, ?_, h.ordered⟩
  · show l.closes + 1 = 1
    rw [h.closes]
  · show l.removals + 1 = 1
    rw [h.removals]
  · show (if cl.ibNull then l.ibFrees else l.ibFrees + 1) = 1
    rw [h.ibFrees]
    cases cl.ibNull <;> rfl
  · show (if cl.obNull then l.obFrees else l.obFrees + 1) = 1
    rw [h.obFrees]
    cases cl.obNull <;> rfl

section DropClient

variable {k : Ptr} {cl : Client}

@[grind =]
theorem dropClient_clients (x : Ptr) :
    (w.dropClient k cl).clients x = if x = k then none else w.clients x :=
  update_apply _ _ _ _

theorem Shape.dropClient (h : Shape w) (hk : w.clients k = some cl) : Shape (w.dropClient k cl) := by
  refine { h with cliLive := ?_, cliNodup := Collection.nodup_remove h.cliNodup, below := ?_ }
  · intro x
    have hlive := h.cliLive x
    show x ∈ (w.clientList.remove k).elems ↔ _
    rw [Collection.mem_remove h.cliNodup, dropClient_clients, hlive]
    grind
  · intro p hp
    obtain ⟨h1, h2, h3, h4⟩ := h.below p hp
    have hpk : p ≠ k := by grind
    exact ⟨h1, h2, by grind, (update_of_ne hpk _ _).trans h4⟩

theorem Linked.dropClient (h : Linked v w)
    (hfree : ∀ d c conn, some c ≠ v.conn → w.Lists d c → w.conns c = some conn →
      conn.client ≠ some k) (hv : ∀ x, v.client = some x → x = k) :
    Linked { v with client := none } (w.dropClient k cl) := by
  refine { h with
    paired := ?_, busy := ?_, awake := ?_, known := ?_, gated := ?_, served := ?_ }
  · intro d x hx hl
    obtain ⟨dev, conn, k', cl', h1, h2, h3, h4, h5, h6⟩ := h.paired d x hx hl
    have hne := hfree d x conn hx hl h2
    exact ⟨dev, conn, k', cl', h1, h2, h3, by grind, h5, h6⟩
  · intro x conn k' cl' hx hconn hk' hcl'
    have hconn' : w.conns x = some conn := hconn
    have hbusy := h.busy x conn k' cl' hx hconn' hk'
    grind
  · intro x cl' _ hcl'
    have hawake := h.awake x cl'
    grind
  · intro x cl' hcl'
    have hknown := h.known x cl'
    show Busy cl'.state → cl'.connectDevice < w.nextDeviceId
    grind
  · intro hg x cl' d dev hcl' hb hd
    have hgated := h.gated hg x cl' d dev
    have hd' : w.devices d = some dev := hd
    grind
  · intro hg hm x cl' _ hcl' hb
    have hserved := h.served hg hm x cl'
    have hx : some x ≠ v.client := by grind
    exact hserved hx (by grind) hb

theorem Books.dropClient (h : Books env w) (hk : w.clients k = some cl) :
    Books env (w.dropClient k cl) := by
  have hledger : ∀ x, (w.dropClient k cl).ledger x =
      if x = k then (w.ledger k).released cl else w.ledger x :=
    fun x => update_apply _ _ _ _
  constructor
  · intro x cl' hx
    have hxk : x ≠ k := by grind
    rw [hledger, if_neg hxk]
    exact h.live x cl' (by grind)
  · intro x hacc hx
    rw [hledger] at hacc ⊢
    by_cases hxk : x = k
    · rw [if_pos hxk]
      exact (h.live k cl hk).released
    · rw [if_neg hxk] at hacc ⊢
      exact h.gone x hacc (by grind)

theorem Inv.dropClient (h : Inv env v w) (hk : w.clients k = some cl)
    (hfree : ∀ d c conn, some c ≠ v.conn → w.Lists d c → w.conns c = some conn →
      conn.client ≠ some k) (hv : ∀ x, v.client = some x → x = k) :
    Inv env { v with client := none } (w.dropClient k cl) :=
  ⟨h.shape.dropClient hk, h.linked.dropClient hfree hv, h.books.dropClient hk, h.deviceLock,
    h.clientLock⟩

end DropClient

/-- A client is accepted. -/
def World.addClient (w : World) (fd : Nat) : World :=
  { w with
    clients := update w.clients w.fresh (some (Client.accepted fd))
    clientList := w.clientList.add w.fresh
    ledger := update w.ledger w.fresh { w.ledger w.fresh with accepted := true }
    fresh := w.fresh + 1 }

theorem clientOk_accepted (fd : Nat) :
    ClientOk env (Client.accepted fd) { Ledger.blank with accepted := true } where
  accepted := rfl
  closes := rfl
  removals := rfl
  ibFrees := rfl
  obFrees := rfl
  ibNull := by nofun
  obNull := by nofun
  muted := by nofun
  sent := rfl
  raw := .inr (by nofun)
  drained := by nofun
  result := by
    rintro (h | h)
    · cases h
    · cases h
  ordered := by
    intro before bytes rest h
    have hlen := congrArg List.length h
    simp [Ledger.blank] at hlen

@[grind =]
theorem addClient_clients (fd : Nat) (x : Ptr) : (w.addClient fd).clients x =
    if x = w.fresh then some (Client.accepted fd) else w.clients x :=
  update_apply _ _ _ _

theorem Shape.addClient (h : Shape w) (fd : Nat) : Shape (w.addClient fd) := by
  have hnew := h.below w.fresh (Nat.le_refl _)
  have hnot : w.fresh ∉ w.clientList.elems := by
    rw [h.cliLive]
    grind
  refine { h with
    cliLive := ?_, cliNodup := Collection.nodup_add h.cliNodup hnot, below := ?_,
    clientBelow := ?_ }
  · intro x
    have hlive := h.cliLive x
    show x ∈ (w.clientList.add w.fresh).elems ↔ _
    rw [Collection.mem_add, addClient_clients, hlive]
    grind
  · intro p hp
    have hp' : w.fresh + 1 ≤ p := hp
    obtain ⟨h1, h2, h3, h4⟩ := h.below p (Nat.le_of_succ_le hp')
    have hpk : p ≠ w.fresh := (Nat.lt_of_succ_le hp').ne'
    exact ⟨h1, h2, by grind, (update_of_ne hpk _ _).trans h4⟩
  · intro x conn k hx hk
    exact Nat.lt_succ_of_lt (h.clientBelow x conn k hx hk)

theorem Linked.addClient (h : Linked v w) (hshape : Shape w) (fd : Nat) :
    Linked v (w.addClient fd) := by
  have hstate : (Client.accepted fd).state = .command := rfl
  have hidle : ¬ Busy (Client.accepted fd).state := by
    rw [hstate]
    simp [Busy]
  have hbelow := hshape.clientBelow
  refine { h with
    paired := ?_, busy := ?_, awake := ?_, known := ?_, gated := ?_, served := ?_ }
  · intro d x hx hl
    obtain ⟨dev, conn, k, cl, h1, h2, h3, h4, h5, h6⟩ := h.paired d x hx hl
    have hk := hbelow x conn k h2 h3
    exact ⟨dev, conn, k, cl, h1, h2, h3, by grind, h5, h6⟩
  · intro x conn k cl hx hconn hk hcl
    have hconn' : w.conns x = some conn := hconn
    have hlt := hbelow x conn k hconn' hk
    exact h.busy x conn k cl hx hconn' hk (by grind)
  · intro k cl hk hcl
    have hawake := h.awake k cl hk
    grind
  · intro k cl hcl hb
    have hknown := h.known k cl
    show cl.connectDevice < w.nextDeviceId
    grind
  · intro hg k cl d dev hcl hb hd
    have hgated := h.gated hg k cl d dev
    have hd' : w.devices d = some dev := hd
    grind
  · intro hg hm k cl hk hcl hb
    exact h.served hg hm k cl hk (by grind) hb

theorem Books.addClient (h : Books env w) (hshape : Shape w) (fd : Nat) :
    Books env (w.addClient fd) := by
  have hledger : ∀ x, (w.addClient fd).ledger x =
      if x = w.fresh then { w.ledger w.fresh with accepted := true } else w.ledger x :=
    fun x => update_apply _ _ _ _
  have hblank := (hshape.below w.fresh (Nat.le_refl _)).2.2.2
  constructor
  · intro x cl hx
    rw [hledger]
    by_cases hxk : x = w.fresh
    · rw [if_pos hxk, hblank]
      rw [addClient_clients, if_pos hxk] at hx
      cases hx
      exact clientOk_accepted fd
    · rw [if_neg hxk]
      exact h.live x cl (by grind)
  · intro x hacc hx
    have hxk : x ≠ w.fresh := by grind
    rw [hledger, if_neg hxk] at hacc ⊢
    exact h.gone x hacc (by grind)

theorem Inv.addClient (h : Inv env v w) (fd : Nat) : Inv env v (w.addClient fd) :=
  ⟨h.shape.addClient fd, h.linked.addClient h.shape fd, h.books.addClient h.shape fd,
    h.deviceLock, h.clientLock⟩

/-! ## Connections -/

/-- `malloc` for a connection. -/
def World.addConn (w : World) (conn : Conn) : World :=
  { w.setConn w.fresh conn with fresh := w.fresh + 1 }

theorem Shape.not_lists_fresh (h : Shape w) (d : Ptr) : ¬ w.Lists d w.fresh := by
  intro hl
  obtain ⟨conn, hconn, _⟩ := h.connLive d w.fresh hl
  rw [(h.below w.fresh (Nat.le_refl _)).2.1] at hconn
  cases hconn

theorem Inv.addConn (h : Inv env v w) (hv : v.conn = none) {conn : Conn} {k : Ptr}
    (hclient : conn.client = some k) (hk : k < w.fresh)
    (hfree : ∀ c conn', w.conns c = some conn' → conn'.client ≠ some k) :
    Inv env { v with conn := some w.fresh } (w.addConn conn) := by
  have hshape := h.shape
  have hl := h.linked
  have hconns : ∀ x, (w.addConn conn).conns x = if x = w.fresh then some conn else w.conns x :=
    fun x => setConn_conns w w.fresh x conn
  have hnone : ∀ x : Ptr, some x ≠ v.conn := by
    intro x hx
    rw [hv] at hx
    cases hx
  have hlists : ∀ d x, w.Lists d x → x ≠ w.fresh := by
    rintro d x hx rfl
    exact hshape.not_lists_fresh d hx
  refine ⟨{ hshape with connLive := ?_, below := ?_, clientBelow := ?_ },
    { hl with
      paired := ?_, single := ?_, busy := ?_, ports := ?_, portNonzero := ?_, listed := ?_,
      served := ?_ }, ⟨h.books.live, h.books.gone⟩, h.deviceLock, h.clientLock⟩
  · intro d x hx
    obtain ⟨conn', hconn', hdev⟩ := hshape.connLive d x hx
    have hne := hlists d x hx
    exact ⟨conn', by grind, hdev⟩
  · intro p hp
    have hp' : w.fresh + 1 ≤ p := hp
    obtain ⟨h1, h2, h3, h4⟩ := hshape.below p (Nat.le_of_succ_le hp')
    have hpk : p ≠ w.fresh := (Nat.lt_of_succ_le hp').ne'
    exact ⟨h1, by grind, h3, h4⟩
  · intro x conn' k' hx hk'
    have hbelow := hshape.clientBelow x conn' k'
    show k' < w.fresh + 1
    grind
  · intro d x _ hx
    obtain ⟨dev, conn', k', cl, h1, h2, h3, h4, h5, h6⟩ := hl.paired d x (hnone x) hx
    have hne := hlists d x hx
    exact ⟨dev, conn', k', cl, h1, by grind, h3, h4, h5, h6⟩
  · intro x y cx cy k' hx hy hkx hky
    have hsingle := hl.single x y cx cy k'
    have hfx := hfree x cx
    have hfy := hfree y cy
    grind
  · intro x conn' k' cl hx hconn' hk' hcl
    have hbusy := hl.busy x conn' k' cl (hnone x)
    have hcl' : w.clients k' = some cl := hcl
    grind
  · intro d x y cx cy hx hy hcx hcy
    have hports := hl.ports d x y cx cy hx hy
    have hnx := hlists d x hx
    have hny := hlists d y hy
    grind
  · intro d x cx hx hcx
    have hport := hl.portNonzero d x cx hx
    have hnx := hlists d x hx
    grind
  · intro hg x cx hx hcx
    have hlisted := hl.listed hg x cx (hnone x)
    exact hlisted (by grind)
  · intro hg hm k' cl hk' hcl hb
    obtain ⟨x, conn', hx, hc⟩ := hl.served hg hm k' cl hk' hcl hb
    have hbelow := hshape.below w.fresh (Nat.le_refl _)
    have hne : x ≠ w.fresh := by grind
    exact ⟨x, conn', by grind, hc⟩

theorem Inv.freeUnlisted (h : Inv env v w) {c k : Ptr} {conn : Conn} (hv : v.conn = some c)
    (hc : w.conns c = some conn) (hclient : conn.client = some k)
    (hidle : ∀ cl, w.clients k = some cl → ¬ Busy cl.state)
    (hnot : ∀ d, ¬ w.Lists d c) :
    Inv env { v with conn := none } { w with conns := update w.conns c none } := by
  have hshape := h.shape
  have hl := h.linked
  have hconns : ∀ x, update w.conns c none x = if x = c then none else w.conns x :=
    fun x => update_apply _ _ _ _
  have hhole : ∀ x, x ≠ c → some x ≠ v.conn := by
    intro x hx
    rw [hv]
    simpa using hx
  have hlists : ∀ d x, w.Lists d x → x ≠ c := by
    rintro d x hx rfl
    exact hnot d hx
  refine ⟨{ hshape with connLive := ?_, below := ?_, clientBelow := ?_ },
    { hl with
      paired := ?_, single := ?_, busy := ?_, ports := ?_, portNonzero := ?_, listed := ?_,
      served := ?_ }, ⟨h.books.live, h.books.gone⟩, h.deviceLock, h.clientLock⟩
  · intro d x hx
    obtain ⟨conn', hconn', hdev⟩ := hshape.connLive d x hx
    have hne := hlists d x hx
    exact ⟨conn', by grind, hdev⟩
  · intro p hp
    obtain ⟨h1, h2, h3, h4⟩ := hshape.below p hp
    exact ⟨h1, by grind, h3, h4⟩
  · intro x conn' k' hx hk'
    have hbelow := hshape.clientBelow x conn' k'
    grind
  · intro d x _ hx
    have hne := hlists d x hx
    obtain ⟨dev, conn', k', cl, h1, h2, h3, h4, h5, h6⟩ := hl.paired d x (hhole x hne) hx
    exact ⟨dev, conn', k', cl, h1, by grind, h3, h4, h5, h6⟩
  · have hsingle := hl.single
    grind
  · intro x conn' k' cl hx hconn' hk' hcl
    have hbusy := hl.busy x conn' k' cl
    grind
  · intro d x y cx cy hx hy hcx hcy
    have hports := hl.ports d x y cx cy hx hy
    grind
  · intro d x cx hx hcx
    have hport := hl.portNonzero d x cx hx
    grind
  · intro hg x cx hx hcx
    have hlisted := hl.listed hg x cx
    exact hlisted (by grind) (by grind)
  · intro hg hm k' cl hk' hcl hb
    obtain ⟨x, conn', hx, hc'⟩ := hl.served hg hm k' cl hk' hcl hb
    have hno := hidle cl
    have hcl' : w.clients k' = some cl := hcl
    exact ⟨x, conn', by grind, hc'⟩

/-! ## Devices -/

theorem Inv.setDev (h : Inv env v w) {d : Ptr} {dev dev' : Device} (hd : w.devices d = some dev)
    (hid : dev'.id = dev.id)
    (hready : (dev'.ready = false ↔ dev'.state = .init) ∧
      (dev'.ready = true → dev'.connections.isSome = true))
    (hslots : ∀ slots, dev'.connections = some slots →
      slots.elems.Nodup ∧ ∀ x ∈ slots.elems, w.Lists d x)
    (hkeep : v.gate → ∀ x, w.Lists d x → (w.setDev d dev').Lists d x)
    (hinit : v.gate → dev'.state = .init → dev.state = .init)
    (hdead : dev'.state = .dead → dev.state = .dead ∨ v.retiring = some d) :
    Inv env v (w.setDev d dev') := by
  have hshape := h.shape
  have hl := h.linked
  have hlists : ∀ d' x, (w.setDev d dev').Lists d' x → w.Lists d' x := by
    rintro d' x ⟨dev0, slots, hd', hs, hx⟩
    rw [setDev_devices] at hd'
    by_cases hdd : d' = d
    · rw [if_pos hdd] at hd'
      cases hd'
      rw [hdd]
      exact (hslots slots hs).2 x hx
    · rw [if_neg hdd] at hd'
      exact ⟨dev0, slots, hd', hs, hx⟩
  refine ⟨{ hshape with
      devLive := ?_, ids := ?_, idsBelow := ?_, ready := ?_, slotsNodup := ?_, connLive := ?_,
      below := ?_ },
    { hl with
      paired := ?_, ports := ?_, portNonzero := ?_, listed := ?_, gated := ?_, undead := ?_ },
    ⟨h.books.live, h.books.gone⟩, h.deviceLock, h.clientLock⟩
  · intro x
    have hlive := hshape.devLive x
    show x ∈ w.deviceList.elems ↔ _
    grind
  · have hids := hshape.ids
    grind
  · intro x dev0 hx
    have hbelow := hshape.idsBelow x
    show dev0.id < w.nextDeviceId
    grind
  · intro x dev0 hx
    have hx' := hshape.ready x
    grind
  · intro x dev0 slots hx hs
    have hnodup := hshape.slotsNodup x
    grind
  · intro d' x hx
    exact hshape.connLive d' x (hlists d' x hx)
  · intro p hp
    obtain ⟨h1, h2, h3, h4⟩ := hshape.below p hp
    exact ⟨by grind, h2, h3, h4⟩
  · intro d' x hx hlx
    obtain ⟨dev0, conn, k, cl, h1, h2, h3, h4, h5, h6⟩ := hl.paired d' x hx (hlists d' x hlx)
    by_cases hdd : d' = d
    · exact ⟨dev', conn, k, cl, by grind, h2, h3, h4, by grind, h6⟩
    · exact ⟨dev0, conn, k, cl, by grind, h2, h3, h4, h5, h6⟩
  · intro d' x y cx cy hx hy
    exact hl.ports d' x y cx cy (hlists d' x hx) (hlists d' y hy)
  · intro d' x cx hx
    exact hl.portNonzero d' x cx (hlists d' x hx)
  · intro hg x cx hx hcx
    have hlx := hl.listed hg x cx hx hcx
    by_cases hdd : cx.dev = d
    · rw [hdd] at hlx ⊢
      exact hkeep hg x hlx
    · obtain ⟨dev0, slots, hd', hs, hxs⟩ := hlx
      exact ⟨dev0, slots, by rw [setDev_devices, if_neg hdd]; exact hd', hs, hxs⟩
  · intro hg k cl d' dev0 hcl hb hd' hid' hstate
    have hgated := hl.gated hg k cl
    have hcl' : w.clients k = some cl := hcl
    by_cases hdd : d' = d
    · rw [setDev_devices, if_pos hdd] at hd'
      cases hd'
      exact hgated d dev hcl' hb hd (hid.symm.trans hid') (hinit hg hstate)
    · rw [setDev_devices, if_neg hdd] at hd'
      exact hgated d' dev0 hcl' hb hd' hid' hstate
  · intro d' dev0 hd' hstate
    have hundead := hl.undead d'
    by_cases hdd : d' = d
    · rw [setDev_devices, if_pos hdd] at hd'
      cases hd'
      rcases hdead hstate with hold | hr
      · exact hundead dev (hdd ▸ hd) hold
      · rw [hdd]
        exact hr
    · rw [setDev_devices, if_neg hdd] at hd'
      exact hundead dev0 hd' hstate

theorem Inv.touchDev (h : Inv env v w) {d : Ptr} {dev dev' : Device} (hd : w.devices d = some dev)
    (hid : dev'.id = dev.id) (hready : dev'.ready = dev.ready) (hstate : dev'.state = dev.state)
    (hconns : dev'.connections = dev.connections) : Inv env v (w.setDev d dev') := by
  have hlists : ∀ x, w.Lists d x → (w.setDev d dev').Lists d x := by
    rintro x ⟨dev0, slots, hd', hs, hx⟩
    rw [hd] at hd'
    cases hd'
    exact ⟨dev', slots, update_self _ _ _, hconns.trans hs, hx⟩
  have hold := h.shape.ready d dev hd
  refine h.setDev hd hid ?_ ?_ (fun _ => hlists) (fun _ hi => hstate.symm.trans hi)
    (fun hi => .inl (hstate.symm.trans hi))
  · rw [hready, hstate, hconns]
    exact hold
  · intro slots hs
    rw [hconns] at hs
    exact ⟨h.shape.slotsNodup d dev slots hd hs, fun x hx => ⟨dev, slots, hd, hs, hx⟩⟩

theorem Inv.listConn (h : Inv env v w) {d c : Ptr} {dev : Device} {slots : Collection} {conn : Conn}
    (hv : v.conn = some c) (hd : w.devices d = some dev) (hs : dev.connections = some slots)
    (hc : w.conns c = some conn) (hdev : conn.dev = d) (hnot : ∀ d', ¬ w.Lists d' c)
    (hport : conn.mux.sport ≠ 0)
    (hfresh : ∀ x cx, w.Lists d x → w.conns x = some cx → cx.mux.sport ≠ conn.mux.sport) :
    Inv env v (w.setDev d { dev with connections := some (slots.add c) }) := by
  have hshape := h.shape
  have hl := h.linked
  have hlists : ∀ d' x, (w.setDev d { dev with connections := some (slots.add c) }).Lists d' x ↔
      w.Lists d' x ∨ (d' = d ∧ x = c) := by
    intro d' x
    by_cases hdd : d' = d
    · subst hdd
      constructor
      · rintro ⟨dev0, slots0, hd', hs', hx⟩
        rw [setDev_devices, if_pos rfl] at hd'
        cases hd'
        cases hs'
        rcases Collection.mem_add.mp hx with rfl | hx
        · exact .inr ⟨rfl, rfl⟩
        · exact .inl ⟨dev, slots, hd, hs, hx⟩
      · rintro (⟨dev0, slots0, hd', hs', hx⟩ | ⟨_, rfl⟩)
        · rw [hd] at hd'
          cases hd'
          rw [hs] at hs'
          cases hs'
          exact ⟨_, _, update_self _ _ _, rfl, Collection.mem_add.mpr (.inr hx)⟩
        · exact ⟨_, _, update_self _ _ _, rfl, Collection.mem_add.mpr (.inl rfl)⟩
    · have hsame : (w.setDev d { dev with connections := some (slots.add c) }).devices d' =
          w.devices d' := by
        rw [setDev_devices, if_neg hdd]
      constructor
      · rintro ⟨dev0, slots0, hd', hs', hx⟩
        exact .inl ⟨dev0, slots0, hsame.symm.trans hd', hs', hx⟩
      · rintro (⟨dev0, slots0, hd', hs', hx⟩ | ⟨hdd', _⟩)
        · exact ⟨dev0, slots0, hsame.trans hd', hs', hx⟩
        · exact absurd hdd' hdd
  have hnotin : c ∉ slots.elems := fun hx => hnot d ⟨dev, slots, hd, hs, hx⟩
  refine ⟨{ hshape with
      devLive := ?_, ids := ?_, idsBelow := ?_, ready := ?_, slotsNodup := ?_, connLive := ?_,
      below := ?_ },
    { hl with
      paired := ?_, ports := ?_, portNonzero := ?_, listed := ?_, gated := ?_, undead := ?_ },
    ⟨h.books.live, h.books.gone⟩, h.deviceLock, h.clientLock⟩
  · intro x
    have hlive := hshape.devLive x
    show x ∈ w.deviceList.elems ↔ _
    grind
  · have hids := hshape.ids
    grind
  · intro x dev0 hx
    have hbelow := hshape.idsBelow x
    show dev0.id < w.nextDeviceId
    grind
  · intro x dev0 hx
    have hx' := hshape.ready x
    grind
  · intro x dev0 slots0 hx hs'
    by_cases hxd : x = d
    · rw [setDev_devices, if_pos hxd] at hx
      cases hx
      cases hs'
      exact Collection.nodup_add (hshape.slotsNodup d dev slots hd hs) hnotin
    · rw [setDev_devices, if_neg hxd] at hx
      exact hshape.slotsNodup x dev0 slots0 hx hs'
  · intro d' x hx
    rcases (hlists d' x).mp hx with hx | ⟨rfl, rfl⟩
    · exact hshape.connLive d' x hx
    · exact ⟨conn, hc, hdev⟩
  · intro p hp
    obtain ⟨h1, h2, h3, h4⟩ := hshape.below p hp
    exact ⟨by grind, h2, h3, h4⟩
  · intro d' x hx hlx
    rcases (hlists d' x).mp hlx with hlx | ⟨rfl, rfl⟩
    · obtain ⟨dev0, conn', k, cl, h1, h2, h3, h4, h5, h6⟩ := hl.paired d' x hx hlx
      by_cases hdd : d' = d
      · exact ⟨_, conn', k, cl, by rw [setDev_devices, if_pos hdd], h2, h3, h4, by grind, h6⟩
      · exact ⟨dev0, conn', k, cl, by grind, h2, h3, h4, h5, h6⟩
    · exact absurd hv.symm hx
  · intro d' x y cx cy hx hy hcx hcy hp
    have hcx' : w.conns x = some cx := hcx
    have hcy' : w.conns y = some cy := hcy
    rcases (hlists d' x).mp hx with hox | ⟨hdx, hxc⟩
    · rcases (hlists d' y).mp hy with hoy | ⟨hdy, hyc⟩
      · exact hl.ports d' x y cx cy hox hoy hcx' hcy' hp
      · have hne := hfresh x cx (hdy ▸ hox) hcx'
        grind
    · rcases (hlists d' y).mp hy with hoy | ⟨_, hyc⟩
      · have hne := hfresh y cy (hdx ▸ hoy) hcy'
        grind
      · rw [hxc, hyc]
  · intro d' x cx hx hcx
    have hcx' : w.conns x = some cx := hcx
    rcases (hlists d' x).mp hx with hx | ⟨rfl, rfl⟩
    · exact hl.portNonzero d' x cx hx hcx'
    · grind
  · intro hg x cx hx hcx
    exact (hlists cx.dev x).mpr (.inl (hl.listed hg x cx hx hcx))
  · intro hg k cl d' dev0 hcl hb hd'
    have hgated := hl.gated hg k cl
    have hcl' : w.clients k = some cl := hcl
    grind
  · intro d' dev0 hd'
    have hundead := hl.undead d'
    grind

theorem Inv.bumpId (h : Inv env v w) {n : Nat} (hn : w.nextDeviceId ≤ n) :
    Inv env v { w with nextDeviceId := n } := by
  refine ⟨{ h.shape with idsBelow := ?_ }, { h.linked with known := ?_ },
    ⟨h.books.live, h.books.gone⟩, h.deviceLock, h.clientLock⟩
  · intro d dev hd
    exact Nat.lt_of_lt_of_le (h.shape.idsBelow d dev hd) hn
  · intro k cl hk hb
    exact Nat.lt_of_lt_of_le (h.linked.known k cl hk hb) hn

theorem Inv.bumpFresh (h : Inv env v w) : Inv env v { w with fresh := w.fresh + 1 } := by
  refine ⟨{ h.shape with below := ?_, clientBelow := ?_ }, { h.linked with },
    ⟨h.books.live, h.books.gone⟩, h.deviceLock, h.clientLock⟩
  · intro p hp
    exact h.shape.below p (Nat.le_of_succ_le hp)
  · intro c conn k hc hk
    exact Nat.lt_succ_of_lt (h.shape.clientBelow c conn k hc hk)

/-- A device is plugged in: it has an id of its own, and no connections. -/
def World.addDevice (w : World) (dev : Device) : World :=
  { w with
    devices := update w.devices w.fresh (some dev)
    deviceList := w.deviceList.add w.fresh
    nextDeviceId := dev.id + 1
    fresh := w.fresh + 1 }

theorem Inv.addDevice (h : Inv env v w) {dev : Device} (hid : w.nextDeviceId ≤ dev.id)
    (hstate : dev.state = .init) (hready : dev.ready = false)
    (hconns : ∀ slots, dev.connections = some slots → slots = []) :
    Inv env v (w.addDevice dev) := by
  have hshape := h.shape
  have hl := h.linked
  have hnew := hshape.below w.fresh (Nat.le_refl _)
  have hdevices : ∀ x, (w.addDevice dev).devices x = if x = w.fresh then some dev else w.devices x :=
    fun x => update_apply _ _ _ _
  have hlists : ∀ d x, (w.addDevice dev).Lists d x ↔ w.Lists d x := by
    intro d x
    by_cases hdd : d = w.fresh
    · constructor
      · rintro ⟨dev0, slots, hd, hs, hx⟩
        rw [hdevices, if_pos hdd] at hd
        cases hd
        rw [hconns slots hs] at hx
        cases hx
      · rintro ⟨dev0, slots, hd, hs, hx⟩
        grind
    · constructor
      · rintro ⟨dev0, slots, hd, hs, hx⟩
        exact ⟨dev0, slots, by grind, hs, hx⟩
      · rintro ⟨dev0, slots, hd, hs, hx⟩
        exact ⟨dev0, slots, by grind, hs, hx⟩
  have hnot : w.fresh ∉ w.deviceList.elems := by
    rw [hshape.devLive]
    grind
  have hbelow := hshape.idsBelow
  refine ⟨{ hshape with
      devLive := ?_, devNodup := Collection.nodup_add hshape.devNodup hnot, ids := ?_,
      idsBelow := ?_, ready := ?_, slotsNodup := ?_, connLive := ?_, below := ?_,
      clientBelow := ?_ },
    { hl with
      paired := ?_, ports := ?_, portNonzero := ?_, known := ?_, listed := ?_, gated := ?_,
      undead := ?_ },
    ⟨h.books.live, h.books.gone⟩, h.deviceLock, h.clientLock⟩
  · intro x
    have hlive := hshape.devLive x
    show x ∈ (w.deviceList.add w.fresh).elems ↔ _
    rw [Collection.mem_add, hlive, hdevices]
    grind
  · intro x y dx dy hx hy hxy
    have hids := hshape.ids x y dx dy
    have hbx := hbelow x dx
    have hby := hbelow y dy
    rw [hdevices] at hx hy
    by_cases hxf : x = w.fresh
    · by_cases hyf : y = w.fresh
      · rw [hxf, hyf]
      · rw [if_pos hxf] at hx
        rw [if_neg hyf] at hy
        cases hx
        have := hby hy
        omega
    · rw [if_neg hxf] at hx
      by_cases hyf : y = w.fresh
      · rw [if_pos hyf] at hy
        cases hy
        have := hbx hx
        omega
      · rw [if_neg hyf] at hy
        exact hids hx hy hxy
  · intro x dx hx
    have hbx := hbelow x dx
    show dx.id < dev.id + 1
    rw [hdevices] at hx
    by_cases hxf : x = w.fresh
    · rw [if_pos hxf] at hx
      cases hx
      omega
    · rw [if_neg hxf] at hx
      have := hbx hx
      omega
  · intro x dx hx
    have hx' := hshape.ready x
    grind
  · intro x dx slots hx hs
    rw [hdevices] at hx
    by_cases hxf : x = w.fresh
    · rw [if_pos hxf] at hx
      cases hx
      rw [hconns slots hs]
      exact List.nodup_nil
    · rw [if_neg hxf] at hx
      exact hshape.slotsNodup x dx slots hx hs
  · intro d x hx
    exact hshape.connLive d x ((hlists d x).mp hx)
  · intro p hp
    have hp' : w.fresh + 1 ≤ p := hp
    obtain ⟨h1, h2, h3, h4⟩ := hshape.below p (Nat.le_of_succ_le hp')
    have hpf : p ≠ w.fresh := (Nat.lt_of_succ_le hp').ne'
    exact ⟨by grind, h2, h3, h4⟩
  · intro x conn k hx hk
    exact Nat.lt_succ_of_lt (hshape.clientBelow x conn k hx hk)
  · intro d x hx hlx
    obtain ⟨dev0, conn, k, cl, h1, h2, h3, h4, h5, h6⟩ := hl.paired d x hx ((hlists d x).mp hlx)
    have hdf : d ≠ w.fresh := by grind
    exact ⟨dev0, conn, k, cl, by grind, h2, h3, h4, h5, h6⟩
  · intro d x y cx cy hx hy
    exact hl.ports d x y cx cy ((hlists d x).mp hx) ((hlists d y).mp hy)
  · intro d x cx hx
    exact hl.portNonzero d x cx ((hlists d x).mp hx)
  · intro k cl hk hb
    have := hl.known k cl hk hb
    show cl.connectDevice < dev.id + 1
    omega
  · intro hg x cx hx hcx
    exact (hlists cx.dev x).mpr (hl.listed hg x cx hx hcx)
  · intro hg k cl d dev0 hk hb hd hid'
    have hk' : w.clients k = some cl := hk
    have hknown := hl.known k cl hk' hb
    rw [hdevices] at hd
    by_cases hdf : d = w.fresh
    · rw [if_pos hdf] at hd
      cases hd
      omega
    · rw [if_neg hdf] at hd
      exact hl.gated hg k cl d dev0 hk' hb hd hid'
  · intro d dev0 hd hdead
    rw [hdevices] at hd
    by_cases hdf : d = w.fresh
    · rw [if_pos hdf] at hd
      cases hd
      rw [hstate] at hdead
      cases hdead
    · rw [if_neg hdf] at hd
      exact hl.undead d dev0 hd hdead

/-- A device is taken off the list and freed. -/
def World.dropDevice (w : World) (d : Ptr) : World :=
  { w with
    deviceList := w.deviceList.remove d
    devices := update w.devices d none }

theorem Inv.dropDevice (h : Inv env v w) (d : Ptr) (hno : v.gate → ∀ x, ¬ w.Lists d x)
    (hr : ∀ x, v.retiring = some x → x = d) :
    Inv env { v with retiring := none } (w.dropDevice d) := by
  have hshape := h.shape
  have hl := h.linked
  have hdevices : ∀ x, (w.dropDevice d).devices x = if x = d then none else w.devices x :=
    fun x => update_apply _ _ _ _
  have hlists : ∀ d' x, (w.dropDevice d).Lists d' x ↔ d' ≠ d ∧ w.Lists d' x := by
    intro d' x
    constructor
    · rintro ⟨dev0, slots, hd, hs, hx⟩
      exact ⟨by grind, dev0, slots, by grind, hs, hx⟩
    · rintro ⟨hne, dev0, slots, hd, hs, hx⟩
      exact ⟨dev0, slots, by grind, hs, hx⟩
  refine ⟨{ hshape with
      devLive := ?_, devNodup := Collection.nodup_remove hshape.devNodup, ids := ?_,
      idsBelow := ?_, ready := ?_, slotsNodup := ?_, connLive := ?_, below := ?_ },
    { hl with
      paired := ?_, ports := ?_, portNonzero := ?_, listed := ?_, gated := ?_, undead := ?_ },
    ⟨h.books.live, h.books.gone⟩, h.deviceLock, h.clientLock⟩
  · intro x
    have hlive := hshape.devLive x
    show x ∈ (w.deviceList.remove d).elems ↔ _
    rw [Collection.mem_remove hshape.devNodup, hlive, hdevices]
    grind
  · have hids := hshape.ids
    grind
  · intro x dev0 hx
    have hbelow := hshape.idsBelow x
    show dev0.id < w.nextDeviceId
    grind
  · intro x dev0 hx
    have hx' := hshape.ready x
    grind
  · intro x dev0 slots hx hs
    have hnodup := hshape.slotsNodup x
    grind
  · intro d' x hx
    exact hshape.connLive d' x ((hlists d' x).mp hx).2
  · intro p hp
    obtain ⟨h1, h2, h3, h4⟩ := hshape.below p hp
    exact ⟨by grind, h2, h3, h4⟩
  · intro d' x hx hlx
    rw [hlists] at hlx
    obtain ⟨dev0, conn, k, cl, h1, h2, h3, h4, h5, h6⟩ := hl.paired d' x hx hlx.2
    exact ⟨dev0, conn, k, cl, by grind, h2, h3, h4, h5, h6⟩
  · intro d' x y cx cy hx hy
    exact hl.ports d' x y cx cy ((hlists d' x).mp hx).2 ((hlists d' y).mp hy).2
  · intro d' x cx hx
    exact hl.portNonzero d' x cx ((hlists d' x).mp hx).2
  · intro hg x cx hx hcx
    have hlx := hl.listed hg x cx hx hcx
    refine (hlists cx.dev x).mpr ⟨?_, hlx⟩
    intro hdd
    rw [hdd] at hlx
    exact hno hg x hlx
  · intro hg k cl d' dev0 hk hb hd hid
    have hgated := hl.gated hg k cl d' dev0 hk hb
    grind
  · intro d' dev0 hd hdead
    rw [hdevices] at hd
    by_cases hdd : d' = d
    · rw [if_pos hdd] at hd
      cases hd
    · rw [if_neg hdd] at hd
      exact absurd (hr d' (hl.undead d' dev0 hd hdead)) hdd

end IDeviceStack.Usbmuxd.Daemon
