/-
# `Usbmuxd.Opening` — `device_start_connect`

A client asks for a connection.  `find_sport` counts up from `next_sport` until it
comes to a port that no connection of the device has; there are fewer connections
than ports, so it comes to one before it is back where it started, and the counter
may wrap around on the way.

**Proved here.**  `findSport_spec`, `connectCommand_spec`.
-/
import IDeviceStack.Usbmuxd.Segments
import Mathlib.Data.Finset.Card
import Mathlib.Data.Finset.Image

namespace IDeviceStack.Usbmuxd.Daemon

open Lib Function

variable {env : Outside} {v : Scope} {w w' : World} {E : Fault → Prop}
  {c d k : Ptr} {conn : Conn} {dev : Device} {slots : Collection} {cl : Client}

/-! ## Ports -/

theorem nextFreePort_free (used : List U16) {n i : Nat} (port : U16) (hi : i < n)
    (hfree : port + BitVec.ofNat 16 i ∉ used) : nextFreePort used n port ∉ used := by
  induction n generalizing port i with
  | zero => exact absurd hi (Nat.not_lt_zero i)
  | succ n ih =>
    rw [nextFreePort]
    by_cases hport : port ∈ used
    · rw [if_pos hport]
      cases i with
      | zero => exact absurd (by simpa using hport) hfree
      | succ i =>
        refine ih (port + 1) (Nat.lt_of_succ_lt_succ hi) ?_
        rw [BitVec.add_assoc, BitVec.add_comm 1]
        rw [BitVec.ofNat_add] at hfree
        exact hfree
    · rw [if_neg hport]
      exact hport

theorem exists_free_port {used : List U16} (h : used.length < 65535) (port : U16) :
    ∃ i, i < 65536 ∧ port + BitVec.ofNat 16 i ∉ used := by
  by_contra hno
  have hall : ∀ i, i < 65536 → port + BitVec.ofNat 16 i ∈ used := by
    intro i hi
    by_contra hfree
    exact hno ⟨i, hi, hfree⟩
  have hinj : Set.InjOn (fun i => port + BitVec.ofNat 16 i) (Finset.range 65536) := by
    intro i hi j hj hij
    have hi' : i < 65536 := Finset.mem_range.mp hi
    have hj' : j < 65536 := Finset.mem_range.mp hj
    have hsame : BitVec.ofNat 16 i = BitVec.ofNat 16 j := (BitVec.add_right_inj port).mp hij
    have hnat := congrArg BitVec.toNat hsame
    rw [BitVec.toNat_ofNat, BitVec.toNat_ofNat] at hnat
    omega
  have hcard : 65536 ≤ used.toFinset.card := by
    calc 65536 = (Finset.range 65536).card := (Finset.card_range 65536).symm
      _ = ((Finset.range 65536).image fun i => port + BitVec.ofNat 16 i).card :=
          (Finset.card_image_of_injOn hinj).symm
      _ ≤ used.toFinset.card := by
          refine Finset.card_le_card ?_
          intro p hp
          obtain ⟨i, hi, rfl⟩ := Finset.mem_image.mp hp
          exact List.mem_toFinset.mpr (hall i (Finset.mem_range.mp hi))
  have hle := List.toFinset_card_le used
  omega

theorem nextFreePort_new {used : List U16} (h : used.length < 65535) (port : U16) :
    nextFreePort used 65536 port ∉ used := by
  obtain ⟨i, hi, hfree⟩ := exists_free_port h port
  exact nextFreePort_free used port hi hfree

theorem Collection.length_elems (col : Collection) : col.elems.length = col.count := by
  rw [Collection.elems, Collection.count, List.length_filterMap_eq_countP]
  rfl

/-- **`find_sport`.**  The port is 0, or no connection of the device has it. -/
theorem findSport_spec (h : Inv env v w) (hd : w.devices d = some dev)
    (hg : v.gate → dev.state ≠ .init) (hE : ¬ v.gate → E .uninitialised) :
    Meets (findSport d) w (fun port w' => ∃ n, Quiet (w.setDev d { dev with nextSport := n }) w' ∧
      Inv env v w' ∧ (port ≠ 0 → ∀ x cx, w'.Lists d x → w'.conns x = some cx →
        cx.mux.sport ≠ port)) E := by
  rw [findSport]
  refine (connectionsOf_spec h hd hg hE).bind ?_
  rintro slots w1 ⟨hs, hq, h1⟩
  have hd1 : w1.devices d = some dev := by
    rw [hq.devices]
    exact hd
  by_cases hfull : slots.count ≥ 65535
  · rw [if_pos hfull]
    have hself : w.setDev d { dev with nextSport := dev.nextSport } = w := by
      rw [World.setDev, ← hd, update_eq_self]
    refine ⟨dev.nextSport, ?_, h1, fun hport => absurd rfl hport⟩
    rw [hself]
    exact hq
  · have hread : ∀ q a (R : U16 → World → Prop), w1.conns q = some a →
        (Meets (getConn q >>= fun conn => pure conn.mux.sport) w1 R E ↔ R a.mux.sport w1) := by
      intro q a R hq
      rw [meets_bind, meets_getConn hq]
      exact meets_pure
    obtain ⟨used, hused, hrun⟩ : ∃ used : List U16,
        used = ((slots.elems.filterMap w1.conns).map fun conn => conn.mux.sport) ∧
          ∀ Q, Meets (slots.elems.mapM fun c => do
            let conn ← getConn c
            pure conn.mux.sport) w1 Q E ↔ Q used w1 :=
      ⟨_, rfl, fun Q => meets_mapM hread (h1.conns_live hd1 hs)⟩
    have hfew : used.length < 65535 := by
      refine Nat.lt_of_le_of_lt ?_ (Nat.lt_of_not_le hfull)
      rw [hused, List.length_map, ← Collection.length_elems]
      exact List.length_filterMap_le _ _
    have hnew := nextFreePort_new hfew dev.nextSport
    rw [if_neg hfull, meets_bind, hrun, meets_bind, meets_getDev hd1, meets_bind, meets_modify,
      meets_pure]
    generalize nextFreePort used 65536 dev.nextSport = port at hnew ⊢
    refine ⟨port + 1, ⟨?_, hq.deviceList, hq.conns, hq.clients, hq.clientList, hq.deviceLock,
      hq.clientLock, hq.nextDeviceId, hq.fresh, hq.ledger⟩, h1.touchDev hd1 rfl rfl rfl rfl, ?_⟩
    · show update w1.devices d _ = update w.devices d _
      rw [hq.devices]
    · rintro - x cx ⟨dev', slots', hd', hs', hx⟩ hcx hsport
      have hdev' : some { dev with nextSport := port + 1 } = some dev' :=
        (update_self d _ w1.devices).symm.trans hd'
      cases hdev'
      have hslots : slots = slots' := Option.some.inj (hs.symm.trans hs')
      have hcx1 : w1.conns x = some cx := hcx
      refine hnew (hused ▸ List.mem_map.mpr ⟨cx, List.mem_filterMap.mpr ⟨x, ?_, hcx1⟩, hsport⟩)
      rw [hslots]
      exact hx

/-! ## A new connection -/

/-- A connection that is listed; its client has not been changed yet. -/
structure Opened (env : Outside) (v : Scope) (w : World) (id : Nat) (k c : Ptr) (conn : Conn)
    (dev : Device) (w' : World) : Prop where
  inv : Inv env { v with conn := some c } w'
  connAt : w'.conns c = some conn
  client : conn.client = some k
  connecting : conn.mux.state = .connecting
  devAt : w'.devices conn.dev = some dev
  lists : w'.Lists conn.dev c
  hasId : dev.id = id
  gate : v.gate → dev.state ≠ .init
  clients : w'.clients = w.clients

/-- What `device_start_connect` leaves behind. -/
def StartedOrNot (env : Outside) (v : Scope) (w : World) (id : Nat) (k : Ptr) (res : Nat)
    (w' : World) : Prop :=
  if res = 0 then ∃ c conn dev, Opened env v w id k c conn dev w'
  else Inv env v w' ∧ w'.clients = w.clients

theorem Scope.withoutConn (hconn : v.conn = none) : { v with conn := none } = v := by
  cases v
  cases hconn
  rfl

theorem openConnection_spec (h : Inv env v w) (hconn : v.conn = none) (hd : w.devices d = some dev)
    (hg : v.gate → dev.state ≠ .init) (hE : ¬ v.gate → E .uninitialised)
    (hk : w.clients k = some cl) (hidle : ¬ Busy cl.state) {sport dport : U16} (hport : sport ≠ 0)
    (hfresh : ∀ x cx, w.Lists d x → w.conns x = some cx → cx.mux.sport ≠ sport) :
    Meets (openConnection env d k sport dport) w (StartedOrNot env v w dev.id k) E := by
  have hbelow : k < w.fresh := by
    by_contra hle
    rw [(h.shape.below k (Nat.le_of_not_lt hle)).2.2.1] at hk
    cases hk
  have hfree : ∀ c conn', w.conns c = some conn' → conn'.client ≠ some k := by
    intro c conn' hc hclient
    refine hidle (h.linked.busy c conn' k cl ?_ hc hclient hk)
    rw [hconn]
    exact Option.some_ne_none c
  have hnot : ∀ d', ¬ w.Lists d' w.fresh := h.shape.not_lists_fresh
  have hold : ∀ x cx, w.Lists d x → (w.addConn (Conn.opened env w.fresh d k sport dport)).conns x =
      some cx → cx.mux.sport ≠ sport := by
    intro x cx hx hcx
    have hne : x ≠ w.fresh := by
      rintro rfl
      exact hnot d hx
    exact hfresh x cx hx ((update_of_ne hne _ _).symm.trans hcx)
  have hclient : (Conn.opened env w.fresh d k sport dport).client = some k := rfl
  have h1 := h.addConn hconn hclient hbelow hfree
  have hc1 : (w.addConn (Conn.opened env w.fresh d k sport dport)).conns w.fresh =
      some (Conn.opened env w.fresh d k sport dport) := update_self _ _ _
  rw [openConnection, meets_bind, meets_get, meets_bind, meets_modify]
  refine (sendTcp_spec hc1 hd thSyn []).bind ?_
  rintro ok w2 ⟨mux, hsent, hq, he⟩
  have h2 := (h1.setMux hc1 mux hsent.sport fun hne => absurd rfl hne).quiet hq
    fun hgate => he.trans (h1.linked.early hgate)
  have hc2 : w2.conns w.fresh = some ((Conn.opened env w.fresh d k sport dport).withMux mux) := by
    rw [hq.conns]
    exact update_self _ _ _
  have hlists2 : ∀ d' x, w2.Lists d' x ↔ w.Lists d' x := fun d' x => hq.lists
  have hk2 : w2.clients = w.clients := hq.clients
  have hnot2 : ∀ d', ¬ w2.Lists d' w.fresh := fun d' hl => hnot d' ((hlists2 d' _).mp hl)
  cases ok with
  | true =>
    rw [if_pos rfl]
    have hd2 : w2.devices d = some dev := by
      rw [hq.devices]
      exact hd
    refine (connectionsOf_spec h2 hd2 hg hE).bind ?_
    rintro slots w3 ⟨hs, hq3, h3⟩
    have hd3 : w3.devices d = some dev := by
      rw [hq3.devices]
      exact hd2
    have hc3 : w3.conns w.fresh =
        some ((Conn.opened env w.fresh d k sport dport).withMux mux) := by
      rw [hq3.conns]
      exact hc2
    have hsport : mux.sport = sport := hsent.sport
    rw [meets_bind, meets_getDev hd3, meets_bind, meets_modify, meets_pure]
    refine ⟨w.fresh, (Conn.opened env w.fresh d k sport dport).withMux mux, { dev with connections := some (slots.add w.fresh) }, ?_⟩
    refine
      { inv := h3.listConn rfl hd3 hs hc3 rfl (fun d' hl => hnot2 d' (hq3.lists.mp hl)) ?_ ?_
        connAt := hc3, client := rfl, connecting := hsent.state
        devAt := update_self _ _ _
        lists := ⟨_, _, update_self _ _ _, rfl, Collection.mem_add.mpr (.inl rfl)⟩
        hasId := rfl, gate := hg, clients := hq3.clients.trans hk2 }
    · show mux.sport ≠ 0
      rw [hsport]
      exact hport
    · intro x cx hx hcx
      show cx.mux.sport ≠ mux.sport
      rw [hsport]
      have hx2 : w.Lists d x := (hlists2 d x).mp (hq3.lists.mp hx)
      have hne : x ≠ w.fresh := by
        rintro rfl
        exact hnot d hx2
      refine hold x cx hx2 ?_
      rw [hq3.conns, hq.conns] at hcx
      exact (update_of_ne hne _ _).symm.trans hcx
  | false =>
    rw [if_neg Bool.false_ne_true, meets_bind, meets_modify, meets_pure]
    have hfreed := h2.freeUnlisted rfl hc2 rfl (k := k) ?_ hnot2
    · have hscope : ({ { v with conn := some w.fresh } with conn := none } : Scope) = v :=
        Scope.withoutConn hconn
      rw [hscope] at hfreed
      exact ⟨hfreed, hk2⟩
    · intro clx hclx
      rw [hk2, hk] at hclx
      cases hclx
      exact hidle

theorem getMuxDeviceForId_spec (h : Inv env v w) (hlock : v.deviceLock = false) (id : Nat) :
    Meets (getMuxDeviceForId id) w (fun r w' => Inv env v w' ∧ Quiet w w' ∧
      ∀ d, r = some d → ∃ dev, w.devices d = some dev ∧ dev.id = id) E := by
  have hw : w.deviceLock = false := h.deviceLock.trans hlock
  rw [getMuxDeviceForId, meets_bind, meets_lockDevices hw, meets_bind, meets_get, meets_bind,
    meets_search (h.lockDevices true).devices_live, meets_bind, meets_unlockDevices, meets_pure]
  refine ⟨h.relocked hlock, (Quiet.refl w).relock hw, ?_⟩
  intro d hd
  obtain ⟨-, dev, hdev, hid⟩ := find?_any hd
  exact ⟨dev, hdev, of_decide_eq_true hid⟩

/-- **`device_start_connect`.** -/
theorem deviceStartConnect_spec (h : Inv env v w) (hconn : v.conn = none)
    (hlock : v.deviceLock = false) (hE : ¬ v.gate → E .uninitialised) (hk : w.clients k = some cl)
    (hidle : ¬ Busy cl.state) {id : Nat} {dport : U16}
    (hg : v.gate → ∀ d dev, w.devices d = some dev → dev.id = id → dev.state ≠ .init) :
    Meets (deviceStartConnect env id dport k) w (StartedOrNot env v w id k) E := by
  have hbad : ∀ {w' : World}, Inv env v w' → Quiet w w' →
      StartedOrNot env v w id k resultBaddev w' := by
    intro w' h' hq
    exact ⟨h', hq.clients⟩
  rw [deviceStartConnect]
  refine (getMuxDeviceForId_spec h hlock id).bind ?_
  rintro r w1 ⟨h1, hq, hfound⟩
  cases r with
  | none => exact hbad h1 hq
  | some d =>
    obtain ⟨dev, hd, rfl⟩ := hfound d rfl
    have hd1 : w1.devices d = some dev := by
      rw [hq.devices]
      exact hd
    have hready : v.gate → dev.state ≠ .init := fun hgate => hg hgate d dev hd rfl
    refine (findSport_spec h1 hd1 hready hE).bind ?_
    rintro sport w2 ⟨n, hq2, h2, hnew⟩
    have hk2 : w2.clients = w.clients := hq2.clients.trans hq.clients
    by_cases hport : sport = 0
    · rw [if_pos hport]
      exact ⟨h2, hk2⟩
    · rw [if_neg hport]
      have hd2 : w2.devices d = some { dev with nextSport := n } := by
        rw [hq2.devices]
        exact update_self _ _ _
      refine (openConnection_spec h2 hconn hd2 hready hE (by rw [hk2]; exact hk) hidle hport
        (hnew hport)).post ?_
      intro res w3 hres
      rw [StartedOrNot] at hres ⊢
      by_cases hzero : res = 0
      · rw [if_pos hzero] at hres ⊢
        obtain ⟨c, conn, dev', ho⟩ := hres
        exact ⟨c, conn, dev', { ho with clients := ho.clients.trans hk2 }⟩
      · rw [if_neg hzero] at hres ⊢
        exact ⟨hres.1, hres.2.trans hk2⟩

/-! ## The client begins to wait -/

theorem ClientOk.buffers {l : Ledger} (h : ClientOk env cl l) (hs : Answerable cl.state) :
    cl.ibNull = false ∧ cl.obNull = false := by
  constructor
  · rw [← Bool.not_eq_true]
    intro hn
    rcases h.ibNull hn with hc | hc | hc <;> rcases hs with hs | hs | hs <;> rw [hs] at hc <;> cases hc
  · exact hs.obNull h

theorem ClientOk.moved {cl' : Client} {l : Ledger} (h : ClientOk env cl l)
    (hs : Answerable cl.state) (hs' : Answerable cl'.state) (hib : cl'.ibNull = cl.ibNull)
    (hob : cl'.obNull = cl.obNull) (hqueue : cl'.ob = cl.ob) : ClientOk env cl' l := by
  obtain ⟨hibNull, hobNull⟩ := h.buffers hs
  have hraw : ∀ x ∈ l.wire, x.isRaw = false := by
    rcases h.raw with hc | hraw
    · rcases hs with hs | hs | hs <;> rw [hs] at hc <;> cases hc
    · exact hraw
  refine { h with
    ibFrees := ?_, obFrees := ?_, ibNull := ?_, obNull := ?_, muted := ?_, sent := ?_,
    raw := .inr hraw, drained := ?_, result := ?_ }
  · rw [hib]
    exact h.ibFrees
  · rw [hob]
    exact h.obFrees
  · intro hn
    rw [hib, hibNull] at hn
    cases hn
  · intro hn
    rw [hob, hobNull] at hn
    cases hn
  · intro hc
    rcases hs' with hs' | hs' | hs' <;> rw [hs'] at hc <;> cases hc
  · rw [hqueue]
    exact h.sent
  · intro hc
    rcases hs' with hs' | hs' | hs' <;> rw [hs'] at hc <;> cases hc
  · rintro (hc | hc) <;> rcases hs' with hs' | hs' | hs' <;> rw [hs'] at hc <;> cases hc

theorem not_busy_command : ¬ Busy .command := by
  rintro (h | h | h) <;> cases h

theorem not_busy_listen : ¬ Busy .listen := by
  rintro (h | h | h) <;> cases h

theorem Inv.begin (h : Inv env { v with conn := some c } w) (hk : w.clients k = some cl)
    (hs : cl.state = .command) (hc : w.conns c = some conn) (hclient : conn.client = some k)
    (hd : w.devices conn.dev = some dev) (hl : w.Lists conn.dev c)
    (hshut : conn.mux.state = .connecting) (hg : v.gate → dev.state ≠ .init) (tag : Nat) :
    Inv env v (w.setClient k
      { cl with connectTag := tag, connectDevice := dev.id, state := .connecting1 }) := by
  have hshape := h.shape
  have hlinked := h.linked
  have hok : ClientOk env { cl with
      connectTag := tag, connectDevice := dev.id, state := .connecting1 } (w.ledger k) :=
    (h.books.live k cl hk).moved (.inl hs) (.inr (.inr rfl)) rfl rfl rfl
  generalize hcl' : ({ cl with
    connectTag := tag, connectDevice := dev.id, state := .connecting1 } : Client) = cl' at hok ⊢
  have hstate : cl'.state = .connecting1 := by rw [← hcl']
  have hdevice : cl'.connectDevice = dev.id := by rw [← hcl']
  have hhole : ∀ x, x ≠ c → some x ≠ ({ v with conn := some c } : Scope).conn := by
    intro x hx hxc
    exact hx (Option.some.inj hxc)
  have hother : ∀ x cx k', x ≠ c → w.conns x = some cx → cx.client = some k' → k' ≠ k := by
    rintro x cx k' hx hcx hk' rfl
    exact hx (hlinked.single x c cx conn k' hcx hc hk' hclient)
  have hclients : ∀ x, (w.setClient k cl').clients x = if x = k then some cl' else w.clients x :=
    fun x => setClient_clients w k x cl'
  have hself : (w.setClient k cl').clients k = some cl' := update_self _ _ _
  have hbooks := h.books.setClient (f := id) hok
  rw [note_id] at hbooks
  have hset : Shape ((w.setClient k cl').note k id) := hshape.setClient hk id
  rw [note_id] at hset
  refine ⟨hset, { hlinked with
    paired := ?_, busy := ?_, awake := ?_, known := ?_, listed := ?_, gated := ?_, served := ?_ },
    hbooks, h.deviceLock, h.clientLock⟩
  · intro d x _ hx
    by_cases hxc : x = c
    · subst hxc
      obtain ⟨conn', hc', rfl⟩ := hshape.connLive d x hx
      have heq : conn' = conn := Option.some.inj (hc'.symm.trans hc)
      subst heq
      exact ⟨dev, conn', k, cl', hd, hc, hclient, hself, hdevice, .inl ⟨hshut, hstate⟩⟩
    · obtain ⟨dev', cx, k', clx, h1, h2, h3, h4, h5, h6⟩ := hlinked.paired d x (hhole x hxc) hx
      refine ⟨dev', cx, k', clx, h1, h2, h3, ?_, h5, h6⟩
      rw [hclients, if_neg (hother x cx k' hxc h2 h3)]
      exact h4
  · intro x cx k' clx _ hcx hk' hclx
    have hcx' : w.conns x = some cx := hcx
    rw [hclients] at hclx
    by_cases hkk : k' = k
    · rw [if_pos hkk] at hclx
      cases hclx
      rw [hstate]
      exact .inl rfl
    · rw [if_neg hkk] at hclx
      refine hlinked.busy x cx k' clx (hhole x ?_) hcx' hk' hclx
      rintro rfl
      rw [hc] at hcx'
      cases hcx'
      rw [hclient] at hk'
      exact hkk (Option.some.inj hk').symm
  · intro x clx hx hclx
    rw [hclients] at hclx
    by_cases hxk : x = k
    · rw [if_pos hxk] at hclx
      cases hclx
      rw [hstate]
      nofun
    · rw [if_neg hxk] at hclx
      exact hlinked.awake x clx hx hclx
  · intro x clx hclx hb
    rw [hclients] at hclx
    by_cases hxk : x = k
    · rw [if_pos hxk] at hclx
      cases hclx
      rw [hdevice]
      exact hshape.idsBelow conn.dev dev hd
    · rw [if_neg hxk] at hclx
      exact hlinked.known x clx hclx hb
  · intro hgate x cx _ hcx
    have hcx' : w.conns x = some cx := hcx
    by_cases hxc : x = c
    · subst hxc
      rw [hc] at hcx'
      cases hcx'
      exact hl
    · exact hlinked.listed hgate x cx (hhole x hxc) hcx'
  · intro hgate x clx d dev' hclx hb hd' hid
    have hd'' : w.devices d = some dev' := hd'
    rw [hclients] at hclx
    by_cases hxk : x = k
    · rw [if_pos hxk] at hclx
      cases hclx
      obtain rfl := hshape.ids d conn.dev dev' dev hd'' hd (hid.trans hdevice)
      rw [hd] at hd''
      cases hd''
      exact hg hgate
    · rw [if_neg hxk] at hclx
      exact hlinked.gated hgate x clx d dev' hclx hb hd'' hid
  · intro hgate hm x clx hx hclx hb
    rw [hclients] at hclx
    by_cases hxk : x = k
    · subst hxk
      exact ⟨c, conn, hc, hclient⟩
    · rw [if_neg hxk] at hclx
      exact hlinked.served hgate hm x clx hx hclx hb

/-! ## The request -/

/-- The client is still there. -/
def Stays (env : Outside) (v : Scope) (k : Ptr) (w' : World) : Prop :=
  Inv env v w' ∧ (w'.clients k).isSome = true

theorem Answered.stays (h : Answered env v k cl w w') : Stays env v k w' := by
  obtain ⟨cl', hk, -, hinv, -⟩ := h
  exact ⟨hinv, by rw [hk]; rfl⟩

/-- **A connect request.** -/
theorem connectCommand_spec (h : Inv env v w) (hconn : v.conn = none) (hlock : v.deviceLock = false)
    (hcalls : Calls env v E) (hk : w.clients k = some cl) (hs : cl.state = .command) {tag id : Nat}
    {dport : U16}
    (hg : v.gate → ∀ d dev, w.devices d = some dev → dev.id = id → dev.state ≠ .init) :
    Meets (connectCommand env k tag id dport) w (fun _ w' => Stays env v k w') E := by
  have hidle : ¬ Busy cl.state := by
    rw [hs]
    exact not_busy_command
  rw [connectCommand]
  refine (deviceStartConnect_spec h hconn hlock hcalls.uninitialised hk hidle hg).bind ?_
  intro res w1 hres
  rw [StartedOrNot] at hres
  by_cases hzero : res = 0
  · rw [if_pos hzero] at hres ⊢
    obtain ⟨c, conn, dev, ho⟩ := hres
    have hk1 : w1.clients k = some cl := by
      rw [ho.clients]
      exact hk
    have hbegin := ho.inv.begin hk1 hs ho.connAt ho.client ho.devAt ho.lists ho.connecting
      ho.gate tag
    rw [ho.hasId] at hbegin
    rw [meets_bind, meets_getClient hk1, meets_modify]
    refine ⟨hbegin, ?_⟩
    rw [setClient_clients, if_pos rfl]
    rfl
  · rw [if_neg hzero] at hres ⊢
    have hk1 : w1.clients k = some cl := by
      rw [hres.2]
      exact hk
    rw [meets_bind]
    refine (sendResult_spec hres.1 hk1 (.inl hs) hcalls.overrun tag res).post ?_
    exact fun _ _ hq => hq.answered.stays

end IDeviceStack.Usbmuxd.Daemon
