/-
# `Usbmuxd.Teardown` — `connection_teardown` and `client_close`

The two functions call each other.  Which of them does what depends on the states of
the connection and of its client when the first of them is called:

    connection   client        connection_teardown                       client_close
    CONNECTING   CONNECTING1   the client is told and waits for commands   both go
    CONNECTED    CONNECTING2   both go                                     the client goes twice
    CONNECTED    CONNECTED     both go                                     (not called)

The second line takes `device_list_mutex` inside of `connection_teardown`.
-/
import IDeviceStack.Usbmuxd.Replies

namespace IDeviceStack.Usbmuxd.Daemon

open Lib Function List

variable {env : Outside} {v : Scope} {w w' : World} {E : Fault → Prop}

/-! ## Looking up -/

/-- The connection of a client on the device with an id. -/
structure FoundBy (w : World) (id : Nat) (k c : Ptr) (d : Ptr) (dev : Device) (conn : Conn) :
    Prop where
  devAt : w.devices d = some dev
  hasId : dev.id = id
  lists : w.Lists d c
  connAt : w.conns c = some conn
  client : conn.client = some k

/-- What `get_mux_connection` returns. -/
def Finds (w : World) (id : Nat) (k : Ptr) : Option Ptr → Prop
  | some c => ∃ d dev conn, FoundBy w id k c d dev conn
  | none => ∀ d dev c conn, ¬ FoundBy w id k c d dev conn

theorem Quiet.lists (h : Quiet w w') {d c : Ptr} : w'.Lists d c ↔ w.Lists d c := by
  rw [World.Lists, World.Lists, h.devices]

theorem Quiet.relock (h : Quiet w w') {b : Bool} (hb : w.deviceLock = b) :
    Quiet w { w' with deviceLock := b } :=
  ⟨h.devices, h.deviceList, h.conns, h.clients, h.clientList, hb.symm, h.clientLock,
    h.nextDeviceId, h.fresh, h.ledger⟩

theorem Inv.relocked (h : Inv env v w) {b : Bool} (hb : v.deviceLock = b) :
    Inv env v { w with deviceLock := b } := by
  have hl := h.lockDevices b
  rw [← hb] at hl ⊢
  exact hl

theorem getMuxConnection_spec (h : Inv env v w) (hlock : v.deviceLock = false) (id : Nat) (k : Ptr)
    (hg : v.gate → ∀ d dev, w.devices d = some dev → dev.id = id → dev.state ≠ .init)
    (hE : ¬ v.gate → E .uninitialised) :
    Meets (getMuxConnection id k) w
      (fun r w' => Quiet w w' ∧ Inv env v w' ∧ Finds w id k r) E := by
  have hw : w.deviceLock = false := h.deviceLock.trans hlock
  have h1 := h.lockDevices true
  rw [getMuxConnection, meets_bind, meets_lockDevices hw, meets_bind, meets_get, meets_bind,
    meets_search h1.devices_live]
  cases hfind : List.find? (fun q => (w.devices q).any fun dev => decide (dev.id = id))
      w.deviceList.elems with
  | none =>
    refine ⟨(Quiet.refl w).relock hw, h.relocked hlock, ?_⟩
    intro d dev c conn hf
    have hno := find?_any_none hfind ((h.shape.devLive d).mpr (by rw [hf.devAt]; rfl)) hf.devAt
    exact absurd hf.hasId (of_decide_eq_false hno)
  | some d =>
    obtain ⟨hmem, dev, hd, hid⟩ := find?_any hfind
    have hid' := of_decide_eq_true hid
    rw [meets_bind, connectionOn, meets_bind]
    refine (connectionsOf_spec h1 hd (fun hgate => hg hgate d dev hd hid') hE).post ?_
    rintro slots w2 ⟨hs, hq, h2⟩
    have hd2 : w2.devices d = some dev := by rw [hq.devices]; exact hd
    rw [meets_search (h2.conns_live hd2 hs)]
    have hq' : Quiet w { w2 with deviceLock := false } :=
      ⟨hq.devices, hq.deviceList, hq.conns, hq.clients, hq.clientList, hw.symm, hq.clientLock,
        hq.nextDeviceId, hq.fresh, hq.ledger⟩
    refine ⟨hq', ?_, ?_⟩
    · exact h.quiet hq' fun hgate => h2.linked.early hgate
    · have hconns : w2.conns = w.conns := hq.conns
      rw [hconns]
      cases hc : List.find? (fun q => (w.conns q).any fun conn => decide (conn.client = some k))
          slots.elems with
      | none =>
        intro d' dev' c conn hf
        obtain rfl : d' = d := h.shape.ids d' d dev' dev hf.devAt hd (hf.hasId.trans hid'.symm)
        obtain ⟨dev0, slots0, hd0, hs0, hc0⟩ := hf.lists
        rw [hd] at hd0
        cases hd0
        rw [hs] at hs0
        cases hs0
        exact absurd hf.client (of_decide_eq_false (find?_any_none hc hc0 hf.connAt))
      | some c =>
        obtain ⟨hcmem, conn, hconn, hclient⟩ := find?_any hc
        exact ⟨d, dev, conn, hd, hid', ⟨dev, slots, hd, hs, hcmem⟩, hconn,
          of_decide_eq_true hclient⟩

/-! ## Releasing a client -/

theorem release_spec (h : Inv env v w) (hlock : v.clientLock = false) {k : Ptr} {cl : Client}
    (hk : w.clients k = some cl) :
    Meets (release k) w (fun _ w' => Quiet (w.dropClient k cl) w' ∧ w'.early = w.early) E := by
  have hw : w.clientLock = false := h.clientLock.trans hlock
  rw [release, meets_bind, meets_getClient hk, meets_bind, meets_modify, meets_bind]
  refine (meets_lockClients (w := w.note k _) hw).mpr ?_
  rw [meets_bind, meets_modify, meets_bind, meets_unlockClients, meets_modify]
  refine ⟨⟨rfl, rfl, rfl, rfl, rfl, rfl, hw.symm, rfl, rfl, ?_⟩, rfl⟩
  show update (update w.ledger k _) k _ = update w.ledger k _
  rw [update_idem]
  congr 1
  simp only [World.note, update_self, Ledger.released]

theorem release_inv (h : Inv env v w) (hlock : v.clientLock = false) {k : Ptr} {cl : Client}
    (hk : w.clients k = some cl)
    (hfree : ∀ d c conn, some c ≠ v.conn → w.Lists d c → w.conns c = some conn →
      conn.client ≠ some k) (hv : ∀ x, v.client = some x → x = k) :
    Meets (release k) w
      (fun _ w' => Quiet (w.dropClient k cl) w' ∧ Inv env { v with client := none } w') E := by
  refine (release_spec h hlock hk).post ?_
  rintro _ w' ⟨hq, he⟩
  exact ⟨hq, (h.dropClient hk hfree hv).quiet hq fun hg => he.trans (h.linked.early hg)⟩

/-! ## A connection in the hands of a handler -/

/-- The connection at `c`, which a handler has in its hands together with its client. -/
structure Holds (env : Outside) (v : Scope) (w : World) (c k : Ptr) (conn : Conn) (dev : Device)
    (slots : Collection) (cl : Client) : Prop where
  inv : Inv env v w
  connHeld : v.conn = some c
  clientHeld : v.client = some k
  unlocked : v.clientLock = false
  connAt : w.conns c = some conn
  client : conn.client = some k
  devAt : w.devices conn.dev = some dev
  slotsAt : dev.connections = some slots
  slot : c ∈ slots.elems
  clientAt : w.clients k = some cl
  gate : v.gate → dev.state ≠ .init

section Holding

variable {c k : Ptr} {conn : Conn} {dev : Device} {slots : Collection} {cl : Client}

theorem Holds.alone (h : Holds env v w c k conn dev slots cl) {x : Ptr} {cx : Conn}
    (hx : some x ≠ v.conn) (hcx : w.conns x = some cx) : cx.client ≠ some k := by
  intro hk
  have hxc := h.inv.linked.single x c cx conn k hcx h.connAt hk h.client
  rw [hxc, h.connHeld] at hx
  exact hx rfl

theorem Holds.setMux (h : Holds env v w c k conn dev slots cl) (mux : MuxConnection)
    (hsport : mux.sport = conn.mux.sport) {w' : World}
    (hq : Quiet (w.setConn c (conn.withMux mux)) w') (he : w'.early = w.early) :
    Holds env v w' c k (conn.withMux mux) dev slots cl where
  inv := (h.inv.setMux h.connAt mux hsport fun hne => absurd h.connHeld.symm hne).quiet hq
    fun hg => he.trans (h.inv.linked.early hg)
  connHeld := h.connHeld
  clientHeld := h.clientHeld
  unlocked := h.unlocked
  connAt := by rw [hq.conns]; exact update_self _ _ _
  client := h.client
  devAt := by rw [hq.devices]; exact h.devAt
  slotsAt := h.slotsAt
  slot := h.slot
  clientAt := by rw [hq.clients]; exact h.clientAt
  gate := h.gate

theorem freeConn_spec {client : Option Ptr} (h : Inv env v w) (hv : v.conn = some c)
    (hc : w.conns c = some conn) (hclient : conn.client = client)
    (hd : w.devices conn.dev = some dev) (hs : dev.connections = some slots)
    (hg : v.gate → dev.state ≠ .init) (hE : ¬ v.gate → E .uninitialised)
    (hserved : v.gate → v.memory → ∀ k cl, some k ≠ v.client → client = some k →
      w.clients k = some cl → ¬ Busy cl.state) :
    Meets (freeConn c) w
      (fun _ w' => Inv env { v with conn := none } w' ∧
        Quiet (w.dropConn conn.dev dev slots c) w') E := by
  rw [freeConn, meets_bind, meets_getConn hc]
  refine (connectionsOf_spec h hd hg hE).bind ?_
  rintro slots' w1 ⟨hs', hq, h1⟩
  rw [hs] at hs'
  cases hs'
  have hd1 : w1.devices conn.dev = some dev := by rw [hq.devices]; exact hd
  have hc1 : w1.conns c = some conn := by rw [hq.conns]; exact hc
  rw [meets_bind, meets_getDev hd1, meets_modify]
  refine ⟨h1.dropConn hd1 hs hc1 rfl hv ?_, ?_⟩
  · intro hgate hm k cl hne hk hcl
    rw [hq.clients] at hcl
    exact hserved hgate hm k cl hne (hclient.symm.trans hk) hcl
  · refine ⟨?_, hq.deviceList, ?_, hq.clients, hq.clientList, hq.deviceLock, hq.clientLock,
      hq.nextDeviceId, hq.fresh, hq.ledger⟩
    · show update w1.devices _ _ = update w.devices _ _
      rw [hq.devices]
    · show update w1.conns c none = update w.conns c none
      rw [hq.conns]

/-! ## Closing a client -/

theorem note_id (w : World) (k : Ptr) : w.note k id = w := by
  rw [World.note, id_eq, update_eq_self]

theorem ClientOk.dying {l : Ledger} (h : ClientOk env cl l)
    (hs : cl.state = .connecting1 ∨ cl.state = .connecting2) :
    ClientOk env { cl with state := .dead } l := by
  have hnot : cl.state ≠ .connected := by
    rcases hs with hs | hs <;> rw [hs] <;> nofun
  refine { h with
    ibNull := ?_, obNull := ?_, muted := by nofun, raw := ?_, drained := by nofun, result := ?_ }
  · intro _
    exact .inr (.inr rfl)
  · intro hn
    exact absurd (h.obNull hn) hnot
  · rcases h.raw with hc | hraw
    · exact absurd hc hnot
    · exact .inr hraw
  · rintro (hc | hc) <;> cases hc

theorem Inv.kill (h : Inv env v w) (hv : v.client = some k) (hk : w.clients k = some cl)
    (hs : cl.state = .connecting1 ∨ cl.state = .connecting2)
    (halone : ∀ x cx, some x ≠ v.conn → w.conns x = some cx → cx.client ≠ some k) :
    Inv env v (w.setClient k { cl with state := .dead }) := by
  have hok := (h.books.live k cl hk).dying hs
  have hdev : ({ cl with state := .dead } : Client).connectDevice = cl.connectDevice := rfl
  have hset : Inv env v ((w.setClient k { cl with state := .dead }).note k id) := by
    refine h.setClient hk hdev (by rintro (hc | hc | hc) <;> cases hc) ?_ ?_
      (fun hne => absurd hv.symm hne) id hok
    · rintro ⟨x, cx, hx, hcx, hclient⟩
      exact absurd hclient (halone x cx hx hcx)
    · intro x cx hx hcx hclient
      exact absurd hclient (halone x cx hx hcx)
  rwa [note_id] at hset

/-- What is left of a client that was closed. -/
structure Gone (env : Outside) (v : Scope) (w : World) (k : Ptr) (w' : World) : Prop where
  inv : Inv env { v with client := none } w'
  devices : w'.devices = w.devices
  deviceList : w'.deviceList = w.deviceList
  conns : w'.conns = w.conns
  others : ∀ x, x ≠ k → w'.clients x = w.clients x
  none : w'.clients k = none

theorem Holds.release (h : Holds env v w c k conn dev slots cl) :
    Meets (Daemon.release k) w (fun _ w' => Gone env v w k w') E := by
  refine (release_inv h.inv h.unlocked h.clientAt ?_ ?_).post ?_
  · intro d x cx hx _ hcx
    exact h.alone hx hcx
  · intro x hx
    rw [h.clientHeld] at hx
    exact (Option.some.inj hx).symm
  · rintro _ w' ⟨hq, hinv⟩
    refine ⟨hinv, hq.devices, hq.deviceList, hq.conns, ?_, ?_⟩
    · intro x hx
      rw [hq.clients]
      exact update_of_ne hx _ _
    · rw [hq.clients]
      exact update_self _ _ _

/-- `client_close` inside of `connection_teardown`: the connection is marked as dead, so that the
teardown inside of it does nothing. -/
theorem Holds.close (h : Holds env v w c k conn dev slots cl) (hdead : conn.mux.state = .dead)
    (hid : cl.connectDevice = dev.id)
    (hs : cl.state = .connecting2 ∨ cl.state = .connected ∨ cl.state = .dead)
    (hlock : cl.state = .connecting2 → v.deviceLock = true → E .relock)
    (hE : ¬ v.gate → E .uninitialised) (n : Nat) :
    Meets (clientCloseBy (teardownAt env (n + 1)) k) w (fun _ w' => Gone env v w k w') E := by
  rw [clientCloseBy, meets_bind, meets_getClient h.clientAt]
  by_cases h2 : cl.state = .connecting2
  · have hif : cl.state = .connecting1 ∨ cl.state = .connecting2 := .inr h2
    simp only [if_pos hif]
    have hinv := h.inv.kill h.clientHeld h.clientAt hif fun x cx hx hcx => h.alone hx hcx
    have hk1 : (w.setClient k { cl with state := .dead }).clients k =
        some { cl with state := .dead } := update_self _ _ _
    rw [meets_bind, meets_modify, meets_bind, deviceAbortConnect]
    by_cases hd : v.deviceLock = true
    · have hheld : (w.setClient k { cl with state := .dead }).deviceLock = true :=
        h.inv.deviceLock.trans hd
      rw [meets_bind, getMuxConnection, meets_bind, meets_lockDevices_held hheld]
      exact hlock h2 hd
    · refine (getMuxConnection_spec hinv (Bool.eq_false_iff.mpr hd) cl.connectDevice k ?_ hE).bind ?_
      · intro hg d' dev' hd' hid'
        obtain rfl : d' = conn.dev :=
          h.inv.shape.ids d' conn.dev dev' dev hd' h.devAt (hid'.trans hid)
        have hd'' : w.devices conn.dev = some dev' := hd'
        rw [h.devAt] at hd''
        cases hd''
        exact h.gate hg
      · rintro r w2 ⟨hq, hinv2, hfinds⟩
        have hc2 : w2.conns c = some conn := by
          rw [hq.conns]
          exact h.connAt
        have hk2 : w2.clients k = some { cl with state := .dead } := by
          rw [hq.clients]
          exact hk1
        have h₂ : Holds env v w2 c k conn dev slots { cl with state := .dead } :=
          { inv := hinv2, connHeld := h.connHeld, clientHeld := h.clientHeld,
            unlocked := h.unlocked, connAt := hc2, client := h.client,
            devAt := by rw [hq.devices]; exact h.devAt,
            slotsAt := h.slotsAt, slot := h.slot, clientAt := hk2, gate := h.gate }
        have hrest : Meets (Daemon.release k) w2 (fun _ w' => Gone env v w k w') E := by
          refine h₂.release.post ?_
          rintro _ w3 hgone
          refine ⟨hgone.inv, hgone.devices.trans hq.devices, hgone.deviceList.trans hq.deviceList,
            hgone.conns.trans hq.conns, ?_, hgone.none⟩
          intro x hx
          rw [hgone.others x hx, hq.clients]
          exact update_of_ne hx _ _
        cases r with
        | none => exact hrest
        | some c' =>
          obtain ⟨d', dev', conn', hf⟩ := hfinds
          obtain rfl : c' = c :=
            h.inv.linked.single c' c conn' conn k hf.connAt h.connAt hf.client h.client
          show Meets (teardownAt env (n + 1) c') w2 _ E
          rw [teardownAt, connectionTeardownBy, meets_bind, meets_getConn hc2, if_pos hdead]
          exact hrest
  · have hif : ¬ (cl.state = .connecting1 ∨ cl.state = .connecting2) := by
      rintro (h1 | h2')
      · rw [h1] at hs
        rcases hs with hs | hs | hs <;> cases hs
      · exact h2 h2'
    simp only [if_neg hif]
    exact h.release

/-! ## Telling the client -/

/-- Nothing but the numbers of the connection at `c` and the client at `k` was touched. -/
structure Near (w : World) (c k : Ptr) (conn : Conn) (w' : World) : Prop where
  devices : w'.devices = w.devices
  deviceList : w'.deviceList = w.deviceList
  others : ∀ x, x ≠ k → w'.clients x = w.clients x
  conns : ∃ mux, w'.conns = update w.conns c (some (conn.withMux mux))

theorem replyBytes_append (xs ys : List Wire) :
    replyBytes (xs ++ ys) = replyBytes xs ++ replyBytes ys := by
  induction xs with
  | nil => rfl
  | cons x xs ih =>
    cases x with
    | reply bytes =>
      rw [cons_append, replyBytes, replyBytes, ih, append_assoc]
    | raw bytes => exact ih

theorem ClientOk.wroteRaw {l : Ledger} (h : ClientOk env cl l) (hs : cl.state = .connected)
    (bytes : List UInt8) : ClientOk env cl { l with wire := l.wire ++ [.raw bytes] } := by
  have hall : replyBytes l.wire = l.queued.flatten := by
    rw [← h.sent, h.drained hs, append_nil]
  refine { h with sent := ?_, raw := .inl hs, ordered := ?_ }
  · rw [replyBytes_append]
    show (replyBytes l.wire ++ []) ++ cl.ob = _
    rw [append_nil]
    exact h.sent
  · intro before bytes' rest hsplit
    have hsplit' : l.wire ++ [Wire.raw bytes] = before ++ .raw bytes' :: rest := hsplit
    rcases eq_nil_or_concat rest with rfl | ⟨rest', x, rfl⟩
    · obtain ⟨rfl, -⟩ := append_inj' hsplit' rfl
      exact ⟨hall, h.result (.inr hs)⟩
    · rw [concat_eq_append, ← cons_append, ← append_assoc] at hsplit'
      obtain ⟨hwire, -⟩ := append_inj' hsplit' rfl
      exact h.ordered before bytes' rest' hwire

theorem flushLoop_frame (env : Env) (n : Nat) (s : Sys) (m : MuxConnection) :
    (flushLoop env n s m).2.state = m.state ∧ (flushLoop env n s m).2.sport = m.sport := by
  induction n generalizing s m with
  | zero => exact ⟨rfl, rfl⟩
  | succ n ih =>
    rw [flushLoop]
    split
    · exact ⟨rfl, rfl⟩
    · split
      · exact ⟨rfl, rfl⟩
      · split
        · exact ⟨rfl, rfl⟩
        · exact ih _ _

theorem Holds.flush (h : Holds env v w c k conn dev slots cl) :
    Meets (flushClient env c k) w (fun _ w' => ∃ mux, mux.state = conn.mux.state ∧
      Holds env v w' c k (conn.withMux mux) dev slots cl ∧ Near w c k conn w') E := by
  have hsame : Near w c k conn w := by
    refine ⟨rfl, rfl, fun _ _ => rfl, conn.mux, ?_⟩
    exact (h.connAt ▸ update_eq_self c w.conns).symm
  rw [flushClient, meets_bind, meets_getClient h.clientAt]
  by_cases hs : cl.state = .connected
  · rw [if_pos hs, meets_bind, meets_getConn h.connAt, meets_bind, meets_getDev h.devAt, meets_bind,
      meets_get, meets_modify]
    obtain ⟨hstate, hsport⟩ := flushLoop_frame env.toEnv conn.mux.ibSize.toNat (w.sys conn.dev dev)
      conn.mux
    generalize flushLoop env.toEnv conn.mux.ibSize.toNat (w.sys conn.dev dev) conn.mux = r at *
    have h1 : Holds env v ({ w with tick := r.1.tick }.setConn c (conn.withMux r.2)) c k
        (conn.withMux r.2) dev slots cl :=
      h.setMux r.2 hsport ⟨rfl, rfl, rfl, rfl, rfl, rfl, rfl, rfl, rfl, rfl⟩ rfl
    have hok := (h.inv.books.live k cl h.clientAt).wroteRaw hs (clientBytes r.1.trace)
    have hnote := h1.inv.touchClient h1.clientAt rfl rfl
      (fun l => { l with wire := l.wire ++ [Wire.raw (clientBytes r.1.trace)] }) hok
    have hself : ({ w with tick := r.1.tick }.setConn c (conn.withMux r.2)).setClient k cl =
        { w with tick := r.1.tick }.setConn c (conn.withMux r.2) := by
      rw [World.setClient, ← h1.clientAt, update_eq_self]
    rw [hself] at hnote
    refine ⟨r.2, hstate, ⟨hnote, h.connHeld, h.clientHeld, h.unlocked, h1.connAt, h.client, h.devAt,
      h.slotsAt, h.slot, h.clientAt, h.gate⟩, ⟨rfl, rfl, fun _ _ => rfl, r.2, rfl⟩⟩
  · rw [if_neg hs]
    exact ⟨conn.mux, rfl, h, hsame⟩

theorem Holds.tellClosing (h : Holds env v w c k conn dev slots cl)
    (hopen : conn.mux.state ≠ .refused ∧ conn.mux.state ≠ .connecting)
    (hid : cl.connectDevice = dev.id)
    (hs : cl.state = .connecting2 ∨ cl.state = .connected ∨ cl.state = .dead)
    (hlock : cl.state = .connecting2 → v.deviceLock = true → E .relock)
    (hE : ¬ v.gate → E .uninitialised) (n : Nat) :
    Meets (tellClient env (clientCloseBy (teardownAt env (n + 1))) c) w
      (fun _ w' => Near w c k conn w' ∧ Inv env { v with client := none } w' ∧
        w'.clients k = none) E := by
  have hif : ¬ (conn.mux.state = .refused ∨ conn.mux.state = .connecting) := by
    rintro (hr | hc)
    · exact hopen.1 hr
    · exact hopen.2 hc
  rw [tellClient, meets_bind, meets_getConn h.connAt, h.client]
  simp only [if_neg hif]
  rw [meets_bind, meets_modify]
  have h1 : Holds env v (w.setConn c (conn.withMux { conn.mux with state := .dead })) c k
      (conn.withMux { conn.mux with state := .dead }) dev slots cl :=
    h.setMux { conn.mux with state := .dead } rfl (Quiet.refl _) rfl
  -- closing the client, once the last bytes are out or not
  have hclose : ∀ (mux : MuxConnection) (w2 : World), mux.state = .dead →
      Holds env v w2 c k (conn.withMux mux) dev slots cl → Near w c k conn w2 →
      Meets (clientCloseBy (teardownAt env (n + 1)) k) w2
        (fun _ w' => Near w c k conn w' ∧ Inv env { v with client := none } w' ∧
          w'.clients k = none) E := by
    intro mux w2 hmux h2 hnear
    refine (h2.close hmux hid hs hlock hE n).post ?_
    rintro _ w3 hgone
    obtain ⟨mux', hmux'⟩ := hnear.conns
    refine ⟨⟨hgone.devices.trans hnear.devices, hgone.deviceList.trans hnear.deviceList, ?_, mux', ?_⟩,
      hgone.inv, hgone.none⟩
    · intro x hx
      exact (hgone.others x hx).trans (hnear.others x hx)
    · exact hgone.conns.trans hmux'
  split
  · refine h1.flush.bind ?_
    rintro _ w2 ⟨mux, hmux, h2, hnear⟩
    refine hclose mux w2 hmux h2 ⟨hnear.devices, hnear.deviceList, hnear.others, ?_⟩
    obtain ⟨mux', hmux'⟩ := hnear.conns
    refine ⟨mux', ?_⟩
    rw [hmux']
    exact update_idem _ _ _
  · exact hclose { conn.mux with state := .dead } _ rfl h1 ⟨rfl, rfl, fun _ _ => rfl, _, rfl⟩

theorem Holds.setClientState (h : Holds env v w c k conn dev slots cl) {s : ClientState}
    (hs : ¬ Busy s) (hok : ClientOk env { cl with state := s } (w.ledger k)) :
    Inv env v (w.setClient k { cl with state := s }) := by
  have hdev : ({ cl with state := s } : Client).connectDevice = cl.connectDevice := rfl
  have hset : Inv env v ((w.setClient k { cl with state := s }).note k id) := by
    refine h.inv.setClient h.clientAt hdev (fun hb => absurd hb hs) ?_ ?_
      (fun hne => absurd h.clientHeld.symm hne) id hok
    · rintro ⟨x, cx, hx, hcx, hclient⟩
      exact absurd hclient (h.alone hx hcx)
    · intro x cx hx hcx hclient
      exact absurd hclient (h.alone hx hcx)
  rwa [note_id] at hset

theorem Replied.answerable {cl' : Client} (h : Replied cl cl') (hs : Answerable cl.state) :
    Answerable cl'.state := by
  rw [h.state]
  exact hs

theorem ClientOk.toCommand {l : Ledger} (h : ClientOk env cl l) (hs : cl.state = .connecting1) :
    ClientOk env { cl with state := .command } l := by
  have hnot : cl.state ≠ .connected := by rw [hs]; nofun
  have hib : cl.ibNull = false := by
    rw [← Bool.not_eq_true]
    intro hn
    rcases h.ibNull hn with hc | hc | hc <;> rw [hs] at hc <;> cases hc
  have hob : cl.obNull = false := by
    rw [← Bool.not_eq_true]
    intro hn
    exact hnot (h.obNull hn)
  refine { h with
    ibNull := ?_, obNull := ?_, muted := by nofun, raw := ?_, drained := by nofun, result := ?_ }
  · intro hn
    rw [show ({ cl with state := ClientState.command } : Client).ibNull = cl.ibNull from rfl, hib]
      at hn
    cases hn
  · intro hn
    rw [show ({ cl with state := ClientState.command } : Client).obNull = cl.obNull from rfl, hob]
      at hn
    cases hn
  · rcases h.raw with hc | hraw
    · exact absurd hc hnot
    · exact .inr hraw
  · rintro (hc | hc) <;> cases hc

theorem Holds.tellRefused (h : Holds env v w c k conn dev slots cl)
    (hshut : conn.mux.state = .refused ∨ conn.mux.state = .connecting)
    (hs : cl.state = .connecting1) (hmem : v.memory → ∀ t, env.memory t = true) (hover : E .overrun)
    (close : Ptr → Handler Unit) :
    Meets (tellClient env close c) w
      (fun _ w' => SameBut k w w' ∧ Inv env v w' ∧ ∃ cl', w'.clients k = some cl' ∧
        cl'.state ≠ .dead ∧ cl'.state ≠ .connecting2 ∧ (v.memory → ¬ Busy cl'.state)) E := by
  rw [tellClient, meets_bind, meets_getConn h.connAt, h.client]
  simp only [if_pos hshut]
  rw [meets_bind, clientNotifyConnect, meets_bind, meets_getClient h.clientAt, hs]
  rw [if_neg (by nofun), if_neg (by simp)]
  refine (sendResult_spec h.inv h.clientAt (.inr (.inr hs)) hover cl.connectTag
    resultConnrefused).bind ?_
  rintro done w1 ⟨cl1, hsend, hk1, hr, hinv, hsame, -⟩
  have hs1 : cl1.state = .connecting1 := hr.state.trans hs
  cases done with
  | false =>
    refine ⟨hsame, hinv, cl1, hk1, ?_, ?_, ?_⟩
    · rw [hs1]
      nofun
    · rw [hs1]
      nofun
    · intro hm
      have hrefused := Client.sendPkt_refused hsend
      rw [resultReply_memory, hmem hm] at hrefused
      cases hrefused
  | true =>
    have h1 : Holds env v w1 c k conn dev slots cl1 :=
      { inv := hinv, connHeld := h.connHeld, clientHeld := h.clientHeld, unlocked := h.unlocked
        connAt := by rw [hsame.conns]; exact h.connAt
        client := h.client
        devAt := by rw [hsame.devices]; exact h.devAt
        slotsAt := h.slotsAt, slot := h.slot, clientAt := hk1, gate := h.gate }
    simp only [Bool.not_true, Bool.false_eq_true, if_false]
    rw [meets_bind, meets_getClient hk1, if_neg (by decide)]
    have hidle : ¬ Busy .command := by
      rintro (hc | hc | hc) <;> cases hc
    have hinv2 := h1.setClientState hidle ((hinv.books.live k cl1 hk1).toCommand hs1)
    refine ⟨hsame.trans ⟨rfl, rfl, rfl, fun _ hx => update_of_ne hx _ _, rfl, rfl, rfl⟩,
      hinv2, _, update_self _ _ _, by nofun, by nofun, fun _ => hidle⟩

theorem Holds.tellNobody (h : Holds env v w c k conn dev slots cl)
    (hshut : conn.mux.state = .refused ∨ conn.mux.state = .connecting) (hs : cl.state = .dead)
    (close : Ptr → Handler Unit) : Meets (tellClient env close c) w (fun _ w' => w' = w) E := by
  rw [tellClient, meets_bind, meets_getConn h.connAt, h.client]
  simp only [if_pos hshut]
  rw [meets_bind, clientNotifyConnect, meets_bind, meets_getClient h.clientAt, if_pos hs]
  exact rfl

/-! ## `connection_teardown` -/

theorem Holds.start (h : Holds env v w c k conn dev slots cl) (halive : conn.mux.state ≠ .dead)
    {close : Ptr → Handler Unit} {Q : Unit → World → Prop}
    (next : ∀ mux w1, mux.state = conn.mux.state →
      Holds env v w1 c k (conn.withMux mux) dev slots cl → Near w c k conn w1 →
      w1.clients = w.clients →
      Meets (tellClient env close c >>= fun _ => freeConn c) w1 Q E) :
    Meets (connectionTeardownBy env close c) w Q E := by
  rw [connectionTeardownBy, meets_bind, meets_getConn h.connAt, if_neg halive, meets_bind,
    meets_getDev h.devAt]
  split
  · refine (sendTcp_spec h.connAt h.devAt thRst []).bind ?_
    rintro _ w1 ⟨mux, hsent, hq, he⟩
    refine next mux w1 hsent.state (h.setMux mux hsent.sport hq he) ?_ hq.clients
    exact ⟨hq.devices, hq.deviceList, fun x _ => by rw [hq.clients]; rfl, mux, hq.conns⟩
  · have hself : w.conns = update w.conns c (some (conn.withMux conn.mux)) :=
      (h.connAt ▸ update_eq_self c w.conns).symm
    exact next conn.mux w rfl h ⟨rfl, rfl, fun _ _ => rfl, conn.mux, hself⟩ rfl

/-- What is left of a connection that was torn down. -/
structure Torn (env : Outside) (v : Scope) (w : World) (c k : Ptr) (conn : Conn) (dev : Device)
    (slots : Collection) (w' : World) : Prop where
  inv : Inv env { v with conn := none, client := none } w'
  conns : w'.conns = update w.conns c none
  devices : w'.devices = update w.devices conn.dev
    (some { dev with connections := some (slots.remove c) })
  deviceList : w'.deviceList = w.deviceList
  others : ∀ x, x ≠ k → w'.clients x = w.clients x
  calm : ∀ cl', w'.clients k = some cl' → cl'.state ≠ .connecting2

theorem Near.freed {w1 w2 : World} (h : Near w c k conn w1)
    (hq : Quiet (w1.dropConn conn.dev dev slots c) w2) :
    w2.conns = update w.conns c none ∧
      w2.devices = update w.devices conn.dev
        (some { dev with connections := some (slots.remove c) }) ∧
      w2.deviceList = w.deviceList ∧ w2.clients = w1.clients := by
  obtain ⟨mux, hmux⟩ := h.conns
  refine ⟨?_, ?_, hq.deviceList.trans h.deviceList, hq.clients⟩
  · rw [hq.conns]
    show update w1.conns c none = _
    rw [hmux, update_idem]
  · rw [hq.devices]
    show update w1.devices conn.dev _ = _
    rw [h.devices]

/-- The state of a connection and that of its client, when `connection_teardown` is called for
it. -/
def Tearable (s : MuxConnState) (t : ClientState) : Prop :=
  ((s = .connecting ∨ s = .refused) ∧ t = .connecting1) ∨
    ((s = .connected ∨ s = .dying) ∧ (t = .connecting2 ∨ t = .connected))

/-- **`connection_teardown`.**  The connection goes, and its client goes with it or waits for
commands. -/
theorem Holds.teardown (h : Holds env v w c k conn dev slots cl)
    (hs : Tearable conn.mux.state cl.state) (hid : cl.connectDevice = dev.id)
    (hlock : cl.state = .connecting2 → v.deviceLock = true → E .relock)
    (hmem : v.memory → ∀ t, env.memory t = true) (hover : E .overrun)
    (hE : ¬ v.gate → E .uninitialised) (n : Nat) :
    Meets (teardownAt env (n + 2) c) w (fun _ w' => Torn env v w c k conn dev slots w') E := by
  have halive : conn.mux.state ≠ .dead := by
    rcases hs with ⟨hs | hs, -⟩ | ⟨hs | hs, -⟩ <;> rw [hs] <;> nofun
  rw [teardownAt]
  refine h.start halive ?_
  intro mux w1 hmux h1 hnear hclients
  have hclient : (conn.withMux mux).client = some k := h.client
  rw [← hmux] at hs
  rcases hs with ⟨hs, ht⟩ | ⟨hs, ht⟩
  · refine (h1.tellRefused hs.symm ht hmem hover _).bind ?_
    rintro _ w2 ⟨hsame, hinv, cl', hk', hawake, hcalm, hidle⟩
    have hnear2 : Near w c k conn w2 := by
      refine ⟨hsame.devices.trans hnear.devices, hsame.deviceList.trans hnear.deviceList, ?_, ?_⟩
      · intro x hx
        exact (hsame.clients x hx).trans (hnear.others x hx)
      · rw [hsame.conns]
        exact hnear.conns
    refine (freeConn_spec hinv h.connHeld (by rw [hsame.conns]; exact h1.connAt) hclient
      (by rw [hsame.devices]; exact h1.devAt) h.slotsAt h.gate hE ?_).post ?_
    · intro _ _ x cx hx hk
      cases hk
      exact absurd h.clientHeld.symm hx
    · rintro _ w3 ⟨hinv3, hq⟩
      obtain ⟨hconns, hdevices, hlist, hcl⟩ := hnear2.freed hq
      have hk3 : w3.clients k = some cl' := by rw [hcl]; exact hk'
      refine ⟨hinv3.putClient ?_, hconns, hdevices, hlist, ?_, ?_⟩
      · intro x clx hx hclx
        have hxk : x = k := by
          have hx' : v.client = some x := hx
          rw [h.clientHeld] at hx'
          exact (Option.some.inj hx').symm
        rw [hxk, hk3] at hclx
        cases hclx
        exact ⟨hawake, fun _ hm hb => absurd hb (hidle hm)⟩
      · intro x hx
        rw [hcl]
        exact hnear2.others x hx
      · intro clx hclx
        rw [hk3] at hclx
        cases hclx
        exact hcalm
  · have hopen : mux.state ≠ .refused ∧ mux.state ≠ .connecting := by
      rcases hs with hs | hs <;> rw [hs] <;> exact ⟨nofun, nofun⟩
    refine (h1.tellClosing hopen hid (ht.imp_right .inl) hlock hE n).bind ?_
    rintro _ w2 ⟨hnear', hinv, hnone⟩
    obtain ⟨mux2, hmux2⟩ := hnear'.conns
    have hnear2 : Near w c k conn w2 := by
      refine ⟨hnear'.devices.trans hnear.devices, hnear'.deviceList.trans hnear.deviceList, ?_,
        mux2, ?_⟩
      · intro x hx
        exact (hnear'.others x hx).trans (hnear.others x hx)
      · obtain ⟨mux', hmux'⟩ := hnear.conns
        rw [hmux2, hmux']
        exact update_idem _ _ _
    have hc2 : w2.conns c = some ((conn.withMux mux).withMux mux2) := by
      rw [hmux2]
      exact update_self _ _ _
    refine (freeConn_spec hinv h.connHeld hc2 hclient (by rw [hnear'.devices]; exact h1.devAt)
      h.slotsAt h.gate hE ?_).post ?_
    · intro _ _ x cx _ hk hcx
      cases hk
      rw [hnone] at hcx
      cases hcx
    · rintro _ w3 ⟨hinv3, hq⟩
      obtain ⟨hconns, hdevices, hlist, hcl⟩ := hnear2.freed hq
      refine ⟨hinv3, hconns, hdevices, hlist, ?_, ?_⟩
      · intro x hx
        rw [hcl]
        exact hnear2.others x hx
      · intro clx hclx
        rw [hcl, hnone] at hclx
        cases hclx

theorem Holds.teardownDeserted (h : Holds env v w c k conn dev slots cl)
    (hs : conn.mux.state = .connecting) (ht : cl.state = .dead) (hE : ¬ v.gate → E .uninitialised)
    (n : Nat) :
    Meets (teardownAt env (n + 1) c) w
      (fun _ w' => Inv env { v with conn := none } w' ∧ w'.clients = w.clients ∧
        w'.conns = update w.conns c none ∧ (∀ d x, w'.Lists d x → w.Lists d x)) E := by
  have halive : conn.mux.state ≠ .dead := by rw [hs]; nofun
  rw [teardownAt]
  refine h.start halive ?_
  intro mux w1 hmux h1 hnear hclients
  have hclient : (conn.withMux mux).client = some k := h.client
  refine (h1.tellNobody (.inr (hmux.trans hs)) ht _).bind ?_
  rintro _ w2 rfl
  refine (freeConn_spec h1.inv h.connHeld h1.connAt hclient h1.devAt h.slotsAt h.gate hE ?_).post ?_
  · intro _ _ x cx hx hk
    cases hk
    exact absurd h.clientHeld.symm hx
  · rintro _ w3 ⟨hinv3, hq⟩
    obtain ⟨hconns, -, -, hcl⟩ := hnear.freed hq
    refine ⟨hinv3, hcl.trans hclients, hconns, ?_⟩
    intro d x hx
    rw [hq.lists, lists_dropConn h1.inv.shape h1.devAt h1.slotsAt h1.connAt rfl] at hx
    obtain ⟨dev', slots', hd', hs', hx'⟩ := hx.2
    exact ⟨dev', slots', by rw [← hnear.devices]; exact hd', hs', hx'⟩

/-- `connection_teardown` out of `client_close`, for a client that was told and not connected
yet: it releases the client, which the caller goes on to use. -/
theorem Holds.teardownDoomed (h : Holds env v w c k conn dev slots cl)
    (hs : conn.mux.state = .connected) (ht : cl.state = .dead) (hid : cl.connectDevice = dev.id)
    (hE : ¬ v.gate → E .uninitialised) (n : Nat) :
    Meets (teardownAt env (n + 2) c) w (fun _ w' => w'.clients k = none) E := by
  have halive : conn.mux.state ≠ .dead := by rw [hs]; nofun
  rw [teardownAt]
  refine h.start halive ?_
  intro mux w1 hmux h1 hnear hclients
  have hclient : (conn.withMux mux).client = some k := h.client
  have hopen : mux.state ≠ .refused ∧ mux.state ≠ .connecting := by
    rw [hmux, hs]
    exact ⟨nofun, nofun⟩
  refine (h1.tellClosing hopen hid (.inr (.inr ht)) ?_ hE n).bind ?_
  · intro h2
    rw [ht] at h2
    cases h2
  · rintro _ w2 ⟨hnear', hinv, hnone⟩
    obtain ⟨mux2, hmux2⟩ := hnear'.conns
    have hc2 : w2.conns c = some ((conn.withMux mux).withMux mux2) := by
      rw [hmux2]
      exact update_self _ _ _
    refine (freeConn_spec hinv h.connHeld hc2 hclient (by rw [hnear'.devices]; exact h1.devAt)
      h.slotsAt h.gate hE ?_).post ?_
    · intro _ _ x cx _ hk hcx
      cases hk
      rw [hnone] at hcx
      cases hcx
    · rintro _ w3 ⟨-, hq⟩
      rw [hq.clients]
      exact hnone

end Holding

end IDeviceStack.Usbmuxd.Daemon
