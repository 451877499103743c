/-
# `Usbmuxd.Replies` — looking things up and sending

What the small functions of the daemon do to a world with the invariant: following
a pointer, walking a list, sending a packet to a device, queueing one for a client.
-/
import IDeviceStack.Usbmuxd.Updates

namespace IDeviceStack.Usbmuxd.Daemon

open Lib

variable {env : Outside} {v : Scope} {w w' : World} {E : Fault → Prop}

/-! ## Pointers, locks and lists -/

section Basics

variable {d c k : Ptr} {dev : Device} {conn : Conn} {cl : Client} {Q : Unit → World → Prop}

theorem meets_getDev {Q : Device → World → Prop} (h : w.devices d = some dev) :
    Meets (getDev d) w Q E ↔ Q dev w := by
  rw [getDev, meets_bind, meets_get, h]
  exact meets_pure

theorem meets_getConn {Q : Conn → World → Prop} (h : w.conns c = some conn) :
    Meets (getConn c) w Q E ↔ Q conn w := by
  rw [getConn, meets_bind, meets_get, h]
  exact meets_pure

theorem meets_getConn_freed {Q : Conn → World → Prop} (h : w.conns c = none) :
    Meets (getConn c) w Q E ↔ E .connFreed := by
  rw [getConn, meets_bind, meets_get, h]
  exact meets_throw

theorem meets_getClient {Q : Client → World → Prop} (h : w.clients k = some cl) :
    Meets (getClient k) w Q E ↔ Q cl w := by
  rw [getClient, meets_bind, meets_get, h]
  exact meets_pure

theorem meets_getClient_freed {Q : Client → World → Prop} (h : w.clients k = none) :
    Meets (getClient k) w Q E ↔ E .clientFreed := by
  rw [getClient, meets_bind, meets_get, h]
  exact meets_throw

theorem meets_lockDevices (h : w.deviceLock = false) :
    Meets lockDevices w Q E ↔ Q () { w with deviceLock := true } := by
  rw [lockDevices, meets_bind, meets_get, h]
  exact Iff.rfl

theorem meets_lockDevices_held (h : w.deviceLock = true) : Meets lockDevices w Q E ↔ E .relock := by
  rw [lockDevices, meets_bind, meets_get, h]
  exact Iff.rfl

theorem meets_unlockDevices : Meets unlockDevices w Q E ↔ Q () { w with deviceLock := false } :=
  Iff.rfl

theorem meets_lockClients (h : w.clientLock = false) :
    Meets lockClients w Q E ↔ Q () { w with clientLock := true } := by
  rw [lockClients, meets_bind, meets_get, h]
  exact Iff.rfl

theorem meets_unlockClients : Meets unlockClients w Q E ↔ Q () { w with clientLock := false } :=
  Iff.rfl

theorem meets_search {α : Type} {heap : World → Ptr → Option α} {gone : Fault} {p : α → Bool}
    {qs : List Ptr} {Q : Option Ptr → World → Prop} (h : ∀ q ∈ qs, (heap w q).isSome = true) :
    Meets (search heap gone p qs) w Q E ↔ Q (qs.find? fun q => (heap w q).any p) w := by
  induction qs with
  | nil => exact Iff.rfl
  | cons q qs ih =>
    obtain ⟨a, ha⟩ := Option.isSome_iff_exists.mp (h q List.mem_cons_self)
    have hrest := ih fun x hx => h x (List.mem_cons_of_mem q hx)
    rw [search, meets_bind, meets_get, ha, List.find?_cons, ha, Option.any_some]
    cases hp : p a with
    | true => simp only [if_true, meets_pure, hp]
    | false => simpa only [hp, Bool.false_eq_true, if_false] using hrest

theorem meets_mapM {α β : Type} {heap : World → Ptr → Option α} {f : Ptr → Handler β} {g : α → β}
    (hf : ∀ q a (R : β → World → Prop), heap w q = some a → (Meets (f q) w R E ↔ R (g a) w))
    {qs : List Ptr} (h : ∀ q ∈ qs, (heap w q).isSome = true) {Q : List β → World → Prop} :
    Meets (qs.mapM f) w Q E ↔ Q ((qs.filterMap (heap w)).map g) w := by
  induction qs generalizing Q with
  | nil => exact Iff.rfl
  | cons q qs ih =>
    obtain ⟨a, ha⟩ := Option.isSome_iff_exists.mp (h q List.mem_cons_self)
    rw [List.mapM_cons, meets_bind, hf q a _ ha, meets_bind,
      ih fun x hx => h x (List.mem_cons_of_mem q hx), List.filterMap_cons_some ha]
    exact Iff.rfl

end Basics

theorem Inv.devices_live (h : Inv env v w) :
    ∀ d ∈ w.deviceList.elems, (w.devices d).isSome = true :=
  fun d hd => (h.shape.devLive d).mp hd

theorem Inv.clients_live (h : Inv env v w) :
    ∀ k ∈ w.clientList.elems, (w.clients k).isSome = true :=
  fun k hk => (h.shape.cliLive k).mp hk

variable {d : Ptr} {dev : Device}

theorem Inv.conns_live (h : Inv env v w) {slots : Collection} (hd : w.devices d = some dev)
    (hs : dev.connections = some slots) : ∀ c ∈ slots.elems, (w.conns c).isSome = true := by
  intro c hc
  obtain ⟨conn, hconn, _⟩ := h.shape.connLive d c ⟨dev, slots, hd, hs, hc⟩
  rw [hconn]
  rfl

theorem find?_any {α : Type} {heap : Ptr → Option α} {p : α → Bool} {qs : List Ptr} {q : Ptr}
    (h : qs.find? (fun q => (heap q).any p) = some q) :
    q ∈ qs ∧ ∃ a, heap q = some a ∧ p a = true := by
  refine ⟨List.mem_of_find?_eq_some h, ?_⟩
  have hp := List.find?_some h
  cases ha : heap q with
  | none =>
    rw [ha] at hp
    cases hp
  | some a =>
    rw [ha] at hp
    exact ⟨a, rfl, hp⟩

theorem find?_any_none {α : Type} {heap : Ptr → Option α} {p : α → Bool} {qs : List Ptr}
    (h : qs.find? (fun q => (heap q).any p) = none) {q : Ptr} (hq : q ∈ qs) {a : α}
    (ha : heap q = some a) : p a = false := by
  have hno := List.find?_eq_none.mp h q hq
  rw [ha, Option.any_some] at hno
  exact Bool.eq_false_iff.mpr hno

theorem Inv.ready_of_lists (h : Inv env v w) (hg : v.gate) {c : Ptr} (hv : some c ≠ v.conn)
    (hd : w.devices d = some dev) (hl : w.Lists d c) : dev.state ≠ .init := by
  obtain ⟨dev', conn, k, cl, h1, h2, h3, h4, h5, h6⟩ := h.linked.paired d c hv hl
  rw [hd] at h1
  cases h1
  exact h.linked.gated hg k cl d dev h4 (h.linked.busy c conn k cl hv h2 h3 h4) hd h5.symm

theorem connectionsOf_spec (h : Inv env v w) (hd : w.devices d = some dev)
    (hg : v.gate → dev.state ≠ .init) (hE : ¬ v.gate → E .uninitialised) :
    Meets (connectionsOf d) w
      (fun slots w' => dev.connections = some slots ∧ Quiet w w' ∧ Inv env v w') E := by
  obtain ⟨hinit, hsome⟩ := h.shape.ready d dev hd
  rw [connectionsOf, meets_bind, meets_getDev hd]
  cases hs : dev.connections with
  | none =>
    refine hE fun hgate => ?_
    have hready : dev.ready = true := by
      rw [← Bool.not_eq_false, hinit]
      exact hg hgate
    have := hsome hready
    rw [hs] at this
    cases this
  | some slots =>
    have hq : Quiet w { w with early := w.early || !dev.ready } :=
      ⟨rfl, rfl, rfl, rfl, rfl, rfl, rfl, rfl, rfl, rfl⟩
    refine ⟨rfl, hq, h.quiet hq fun hgate => ?_⟩
    have hready : dev.ready = true := by
      rw [← Bool.not_eq_false, hinit]
      exact hg hgate
    show (w.early || !dev.ready) = false
    rw [h.linked.early hgate, hready]
    rfl

/-! ## To a device -/

/-- The packet went out, or nothing happened to the connection. -/
def Sent (m m' : MuxConnection) (ok : Bool) : Prop :=
  if ok then
    ∃ t, m' = { m with txAcked := m.txAck, lastAckTime := t, ackPending := false }
  else
    m' = m

theorem sendTcp_spec {c : Ptr} {conn : Conn} (hc : w.conns c = some conn)
    (hd : w.devices conn.dev = some dev) (flags : U8) (data : List UInt8) :
    Meets (sendTcp env c flags data) w
      (fun ok w' => ∃ mux, Sent conn.mux mux ok ∧ Quiet (w.setConn c (conn.withMux mux)) w' ∧
        w'.early = w.early) E := by
  rw [sendTcp, meets_bind, meets_getConn hc, meets_bind, meets_getDev hd, meets_bind, meets_get]
  refine ⟨_, ?_, ⟨rfl, rfl, rfl, rfl, rfl, rfl, rfl, rfl, rfl, rfl⟩, rfl⟩
  rw [Usbmuxd.sendTcp]
  split
  · exact ⟨_, rfl⟩
  · rfl

theorem sendPacket_spec (hd : w.devices d = some dev) (proto : MuxProtocol) (header : Header)
    (data : List UInt8) :
    Meets (sendPacket env d proto header data) w (fun _ w' => Quiet w w' ∧ w'.early = w.early) E := by
  rw [sendPacket, meets_bind, meets_getDev hd, meets_bind, meets_get]
  exact ⟨⟨rfl, rfl, rfl, rfl, rfl, rfl, rfl, rfl, rfl, rfl⟩, rfl⟩

variable {m m' : MuxConnection} {ok : Bool}

theorem Sent.sport (h : Sent m m' ok) : m'.sport = m.sport := by
  rw [Sent] at h
  split at h
  · obtain ⟨t, rfl⟩ := h
    rfl
  · rw [h]

theorem Sent.state (h : Sent m m' ok) : m'.state = m.state := by
  rw [Sent] at h
  split at h
  · obtain ⟨t, rfl⟩ := h
    rfl
  · rw [h]

theorem Sent.matched (h : Sent m m' ok) {s : ClientState} (hm : Matched m s) : Matched m' s := by
  rw [Sent] at h
  split at h
  · obtain ⟨t, rfl⟩ := h
    rcases hm with hm | ⟨h1, h2, _, _⟩ | hm
    · exact .inl hm
    · exact .inr (.inl ⟨h1, h2, rfl, rfl⟩)
    · exact .inr (.inr hm)
  · rwa [h]

/-! ## To a client -/

/-- Only the client at `k` was touched. -/
structure SameBut (k : Ptr) (w w' : World) : Prop where
  devices : w'.devices = w.devices
  deviceList : w'.deviceList = w.deviceList
  conns : w'.conns = w.conns
  clients : ∀ x, x ≠ k → w'.clients x = w.clients x
  clientList : w'.clientList = w.clientList
  nextDeviceId : w'.nextDeviceId = w.nextDeviceId
  fresh : w'.fresh = w.fresh

theorem SameBut.refl (k : Ptr) (w : World) : SameBut k w w :=
  ⟨rfl, rfl, rfl, fun _ _ => rfl, rfl, rfl, rfl⟩

variable {k : Ptr}

theorem SameBut.trans {w w' w'' : World} (h : SameBut k w w') (h' : SameBut k w' w'') :
    SameBut k w w'' :=
  ⟨h'.devices.trans h.devices, h'.deviceList.trans h.deviceList, h'.conns.trans h.conns,
    fun x hx => (h'.clients x hx).trans (h.clients x hx), h'.clientList.trans h.clientList,
    h'.nextDeviceId.trans h.nextDeviceId, h'.fresh.trans h.fresh⟩

theorem SameBut.setClient {w : World} (cl : Client) (f : Ledger → Ledger) :
    SameBut k w ((w.setClient k cl).note k f) :=
  ⟨rfl, rfl, rfl, fun _ hx => Function.update_of_ne hx _ _, rfl, rfl, rfl⟩

/-- Queueing a packet leaves all of a client but its out-queue. -/
structure Replied (cl cl' : Client) : Prop where
  fd : cl'.fd = cl.fd
  state : cl'.state = cl.state
  protoVersion : cl'.protoVersion = cl.protoVersion
  ib : cl'.ib = cl.ib
  ibNull : cl'.ibNull = cl.ibNull
  obNull : cl'.obNull = cl.obNull
  connectTag : cl'.connectTag = cl.connectTag
  connectDevice : cl'.connectDevice = cl.connectDevice

theorem Replied.refl (cl : Client) : Replied cl cl := ⟨rfl, rfl, rfl, rfl, rfl, rfl, rfl, rfl⟩

variable {cl cl' : Client} {r : Reply}

theorem Client.put_some (h : cl.put r = some cl') :
    cl' = { cl with ob := cl.ob ++ r.bytes cl.protoVersion, pollout := true } := by
  rw [Client.put] at h
  split at h
  · exact (Option.some.inj h).symm
  · cases h

variable {done : Bool}

theorem Client.sendPkt_some (h : cl.sendPkt r = some (cl', done)) :
    Replied cl cl' ∧ cl'.ob = if done then cl.ob ++ r.bytes cl.protoVersion else cl.ob := by
  rw [Client.sendPkt] at h
  split at h
  · split at h
    · obtain ⟨c, hc, heq⟩ := Option.map_eq_some_iff.mp h
      cases heq
      rw [Client.put_some hc]
      exact ⟨⟨rfl, rfl, rfl, rfl, rfl, rfl, rfl, rfl⟩, rfl⟩
    · cases h
      exact ⟨Replied.refl cl, rfl⟩
  · obtain ⟨c, hc, heq⟩ := Option.map_eq_some_iff.mp h
    cases heq
    rw [Client.put_some hc]
    exact ⟨⟨rfl, rfl, rfl, rfl, rfl, rfl, rfl, rfl⟩, rfl⟩

/-- A client that may get replies. -/
def Answerable (s : ClientState) : Prop := s = .command ∨ s = .listen ∨ s = .connecting1

variable {l : Ledger}

theorem Ledger.Ordered.of_no_raw (h : ∀ x ∈ l.wire, x.isRaw = false) : l.Ordered env := by
  intro before bytes rest hwire
  have hraw := h (.raw bytes) (by rw [hwire]; simp)
  cases hraw

theorem ClientOk.replied (h : ClientOk env cl l) (hs : Answerable cl.state) (hr : Replied cl cl')
    (hob : cl'.ob = if done then cl.ob ++ r.bytes cl.protoVersion else cl.ob) :
    ClientOk env cl'
      { l with queued := if done then l.queued ++ [r.bytes cl.protoVersion] else l.queued } := by
  have hraw : ∀ x ∈ l.wire, x.isRaw = false := by
    rcases h.raw with hc | hraw
    · rcases hs with hs | hs | hs <;> rw [hs] at hc <;> cases hc
    · exact hraw
  have hno : ¬ (cl.state = .connecting2 ∨ cl.state = .connected) := by
    rcases hs with hs | hs | hs <;> rw [hs] <;> rintro (hc | hc) <;> cases hc
  constructor
  case accepted => exact h.accepted
  case closes => exact h.closes
  case removals => exact h.removals
  case ibFrees => rw [hr.ibNull]; exact h.ibFrees
  case obFrees => rw [hr.obNull]; exact h.obFrees
  case ibNull => rw [hr.ibNull, hr.state]; exact h.ibNull
  case obNull => rw [hr.obNull, hr.state]; exact h.obNull
  case muted => rw [hr.ibNull, hr.state]; exact h.muted
  case sent =>
    cases done with
    | true =>
      show replyBytes l.wire ++ cl'.ob = (l.queued ++ [r.bytes cl.protoVersion]).flatten
      rw [hob, if_pos rfl, ← List.append_assoc, h.sent]
      simp
    | false =>
      show replyBytes l.wire ++ cl'.ob = l.queued.flatten
      rw [hob]
      exact h.sent
  case raw => exact .inr hraw
  case drained =>
    intro hc
    rw [hr.state] at hc
    exact absurd (.inr hc) hno
  case result =>
    intro hc
    rw [hr.state] at hc
    exact absurd hc hno
  case ordered => exact Ledger.Ordered.of_no_raw hraw

/-- What a packet for the client at `k` leaves behind. -/
def Queued (env : Outside) (v : Scope) (k : Ptr) (cl : Client) (w : World) (r : Reply) (done : Bool)
    (w' : World) : Prop :=
  ∃ cl', cl.sendPkt r = some (cl', done) ∧ w'.clients k = some cl' ∧ Replied cl cl' ∧
    Inv env v w' ∧ SameBut k w w' ∧
    (w'.ledger k).queued =
      if done then (w.ledger k).queued ++ [r.bytes cl.protoVersion] else (w.ledger k).queued

theorem Answerable.obNull (hs : Answerable cl.state) (h : ClientOk env cl l) :
    cl.obNull = false := by
  rw [← Bool.not_eq_true]
  intro hn
  have hc := h.obNull hn
  rcases hs with hs | hs | hs <;> rw [hs] at hc <;> cases hc

/-- **`send_pkt`.** -/
theorem sendPkt_spec (h : Inv env v w) {k : Ptr} {cl : Client} (hk : w.clients k = some cl)
    (hs : Answerable cl.state) (hE : E .overrun) (tag msg : Nat) (payload : Payload) :
    Meets (sendPkt env k tag msg payload) w (fun done w' => Queued env v k cl w
      ⟨tag, msg, payload.val, payload.property, env.memory w.tick⟩ done w') E := by
  have hok := h.books.live k cl hk
  have hob := hs.obNull hok
  rw [sendPkt, meets_bind, meets_getClient hk, meets_bind, meets_get]
  simp only [hob, Bool.false_eq_true, if_false]
  cases hsend : cl.sendPkt ⟨tag, msg, payload.val, payload.property, env.memory w.tick⟩ with
  | none => exact hE
  | some p =>
    obtain ⟨cl', done⟩ := p
    obtain ⟨hr, hob'⟩ := Client.sendPkt_some hsend
    have hclient : ∀ f, (((w.setClient k cl').note k f).asked).clients k = some cl' :=
      fun f => Function.update_self _ _ _
    have hledger : ∀ f, (((w.setClient k cl').note k f).asked).ledger k = f (w.ledger k) :=
      fun f => Function.update_self _ _ _
    have hsame : ∀ f, SameBut k w ((w.setClient k cl').note k f).asked :=
      fun f => ⟨rfl, rfl, rfl, fun _ hx => Function.update_of_ne hx _ _, rfl, rfl, rfl⟩
    have hbooks := hok.replied hs hr hob'
    cases done with
    | true =>
      refine ⟨cl', hsend, hclient _, hr, ?_, hsame _, ?_⟩
      · exact (h.touchClient hk hr.connectDevice hr.state _ hbooks).asked
      · exact congrArg Ledger.queued (hledger _)
    | false =>
      have hid : ((w.setClient k cl').note k id).asked = (w.setClient k cl').asked := by
        rw [World.note, id_eq, Function.update_eq_self]
      have key : Queued env v k cl w
          ⟨tag, msg, payload.val, payload.property, env.memory w.tick⟩ false
          ((w.setClient k cl').note k id).asked :=
        ⟨cl', hsend, hclient id, hr,
          (h.touchClient hk hr.connectDevice hr.state id hbooks).asked, hsame id,
          congrArg Ledger.queued (hledger id)⟩
      rw [hid] at key
      exact key

/-- **`send_result`.** -/
theorem sendResult_spec (h : Inv env v w) (hk : w.clients k = some cl) (hs : Answerable cl.state)
    (hE : E .overrun) (tag result : Nat) :
    Meets (sendResult env k tag result) w (fun done w' => Queued env v k cl w
      (resultReply env cl.protoVersion tag result (env.memory w.tick)) done w') E := by
  rw [sendResult, meets_bind, meets_getClient hk, resultReply]
  by_cases hp : cl.protoVersion = 1
  · rw [if_pos hp, if_pos hp]
    exact sendPkt_spec h hk hs hE tag messagePlist _
  · rw [if_neg hp, if_neg hp]
    exact sendPkt_spec h hk hs hE tag messageResult _

/-- A reply of whatever kind. -/
def Answered (env : Outside) (v : Scope) (k : Ptr) (cl : Client) (w w' : World) : Prop :=
  ∃ cl', w'.clients k = some cl' ∧ Replied cl cl' ∧ Inv env v w' ∧ SameBut k w w'

theorem Queued.answered (h : Queued env v k cl w r done w') : Answered env v k cl w w' := by
  obtain ⟨cl', _, hk, hr, hinv, hsame, _⟩ := h
  exact ⟨cl', hk, hr, hinv, hsame⟩

theorem sendPlistPkt_spec (h : Inv env v w) (hk : w.clients k = some cl) (hs : Answerable cl.state)
    (hE : E .overrun) (tag : Nat) (notice : Notice) :
    Meets (sendPlistPkt env k tag notice) w (fun _ w' => Answered env v k cl w w') E :=
  (sendPkt_spec h hk hs hE tag messagePlist _).post fun _ _ hq => hq.answered

theorem notifyDeviceAdd_spec (h : Inv env v w) (hk : w.clients k = some cl)
    (hs : Answerable cl.state) (hE : E .overrun) (id usbdev : Nat) :
    Meets (notifyDeviceAdd env k id usbdev) w (fun _ w' => Answered env v k cl w w') E := by
  rw [notifyDeviceAdd, meets_bind, meets_getClient hk]
  split
  · exact sendPlistPkt_spec h hk hs hE 0 _
  · exact (sendPkt_spec h hk hs hE 0 messageDeviceAdd _).post fun _ _ hq => hq.answered

theorem notifyDeviceRemove_spec (h : Inv env v w) (hk : w.clients k = some cl)
    (hs : Answerable cl.state) (hE : E .overrun) (id : Nat) :
    Meets (notifyDeviceRemove env k id) w (fun _ w' => Answered env v k cl w w') E := by
  rw [notifyDeviceRemove, meets_bind, meets_getClient hk]
  split
  · exact sendPlistPkt_spec h hk hs hE 0 _
  · exact (sendPkt_spec h hk hs hE 0 messageDeviceRemove _).post fun _ _ hq => hq.answered

theorem Client.sendPkt_refused (h : cl.sendPkt r = some (cl', false)) : r.memory = false := by
  rw [Client.sendPkt] at h
  split at h
  · split at h
    · obtain ⟨c, _, heq⟩ := Option.map_eq_some_iff.mp h
      cases heq
    · rename_i hmem
      exact Bool.eq_false_iff.mpr hmem
  · obtain ⟨c, _, heq⟩ := Option.map_eq_some_iff.mp h
    cases heq

theorem resultReply_memory (version tag result : Nat) (memory : Bool) :
    (resultReply env version tag result memory).memory = memory := by
  rw [resultReply]
  split
  · rfl
  · rfl

end IDeviceStack.Usbmuxd.Daemon
