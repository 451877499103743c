/-
# `Usbmuxd.Segments` — what a segment does to the daemon

From `device_tcp_input` down to `send_tcp_ack`: a connection is looked up, and the
handler goes on with it and its client in its hands.  In the end it has put both back,
or torn them down.

**Proved here.**  `device_tcp_input` and `device_check_timeouts` keep the invariant and
touch one connection with its client and nothing else, or they stop with a fault
that the segment has to answer for.
-/
import IDeviceStack.Usbmuxd.Teardown

namespace IDeviceStack.Usbmuxd.Daemon

open Lib Function Option

variable {env : Outside} {v : Scope} {w w' : World} {E : Fault → Prop}
  {c k : Ptr} {conn : Conn} {dev : Device} {slots : Collection} {cl : Client}

/-! ## Taking a connection, and putting it back -/

/-- The scope with empty hands. -/
def Scope.bare (v : Scope) : Scope := { v with conn := none, client := none }

theorem Scope.bare_eq (hconn : v.conn = none) (hclient : v.client = none) : v.bare = v := by
  cases v
  cases hconn
  cases hclient
  rfl

/-- The scope with a connection and its client in its hands. -/
def Scope.holding (v : Scope) (c k : Ptr) : Scope := { v with conn := some c, client := some k }

variable {d : Ptr}

theorem Inv.hold (h : Inv env v w) (hconn : v.conn = none) (hclient : v.client = none)
    (hlock : v.clientLock = false) (hd : w.devices d = some dev) (hl : w.Lists d c) :
    ∃ conn slots k cl, conn.dev = d ∧
      Holds env (v.holding c k) w c k conn dev slots cl ∧ cl.connectDevice = dev.id ∧
      Matched conn.mux cl.state := by
  have hc : some c ≠ v.conn := by
    rw [hconn]
    exact some_ne_none c
  obtain ⟨dev', conn, k, cl, hd', hcat, hk, hkat, hid, hm⟩ := h.linked.paired d c hc hl
  rw [hd] at hd'
  cases hd'
  obtain ⟨dev', slots, hd', hs, hslot⟩ := hl
  rw [hd] at hd'
  cases hd'
  obtain ⟨conn', hcat', hdev⟩ := h.shape.connLive d c ⟨dev, slots, hd, hs, hslot⟩
  rw [hcat] at hcat'
  cases hcat'
  refine ⟨conn, slots, k, cl, hdev, ?_, hid, hm⟩
  exact
    { inv := h.take hconn hclient (some c) (some k), connHeld := rfl, clientHeld := rfl
      unlocked := hlock, connAt := hcat, client := hk, devAt := by rw [hdev]; exact hd
      slotsAt := hs, slot := hslot, clientAt := hkat
      gate := fun hg => h.ready_of_lists hg hc hd ⟨dev, slots, hd, hs, hslot⟩ }

variable {m : MuxConnection} {s : ClientState}

theorem Matched.busy (h : Matched m s) : Busy s := by
  rcases h with ⟨_, h⟩ | ⟨_, h, _, _⟩ | ⟨_, h⟩
  · exact .inl h
  · exact .inr (.inl h)
  · exact .inr (.inr h)

theorem Holds.put (h : Holds env v w c k conn dev slots cl) (hid : cl.connectDevice = dev.id)
    (hm : Matched conn.mux cl.state) : Inv env v.bare w := by
  have hl : w.Lists conn.dev c := ⟨dev, slots, h.devAt, h.slotsAt, h.slot⟩
  have hheld : ∀ x, v.conn = some x → x = c := by
    intro x hx
    rw [h.connHeld] at hx
    exact (some.inj hx).symm
  have hconn : Inv env { v with conn := none } w := by
    refine h.inv.putConn ?_ ?_ ?_
    · intro d x hx hlx
      obtain rfl := hheld x hx
      obtain ⟨conn', hc', hdev⟩ := h.inv.shape.connLive d x hlx
      rw [h.connAt] at hc'
      cases hc'
      exact ⟨dev, conn, k, cl, hdev ▸ h.devAt, h.connAt, h.client, h.clientAt, hid, hm⟩
    · intro x cx kx clx hx hcx hkx hclx
      obtain rfl := hheld x hx
      rw [h.connAt] at hcx
      cases hcx
      rw [h.client] at hkx
      cases hkx
      rw [h.clientAt] at hclx
      cases hclx
      exact hm.busy
    · intro _ x cx hx hcx
      obtain rfl := hheld x hx
      rw [h.connAt] at hcx
      cases hcx
      exact hl
  refine hconn.putClient ?_
  intro x clx hx hclx
  have hxk : x = k := by
    have hx' : v.client = some x := hx
    rw [h.clientHeld] at hx'
    exact (some.inj hx').symm
  subst hxk
  rw [h.clientAt] at hclx
  cases hclx
  refine ⟨?_, fun _ _ _ => ⟨c, conn, h.connAt, h.client⟩⟩
  intro hdead
  rw [hdead] at hm
  rcases hm with ⟨_, hs⟩ | ⟨_, hs, _, _⟩ | ⟨_, hs⟩
  · cases hs
  · cases hs
  · cases hs

/-- Everything but one connection, the list it is on, and one client is as it was; and the client is
not one that waits for the result unless it was before. -/
structure Off (w : World) (c k : Ptr) (w' : World) : Prop where
  conns : ∀ x, x ≠ c → w'.conns x = w.conns x
  clients : ∀ x, x ≠ k → w'.clients x = w.clients x
  deviceList : w'.deviceList = w.deviceList
  devices : ∀ d dev, w.devices d = some dev →
    ∃ col, w'.devices d = some { dev with connections := col }

theorem Off.setConn (w : World) (c k : Ptr) (conn : Conn) : Off w c k (w.setConn c conn) :=
  ⟨fun _ hx => update_of_ne hx _ _, fun _ _ => rfl, rfl,
    fun _ dev hd => ⟨dev.connections, hd⟩⟩

variable {w₁ : World}

theorem Off.trans {w2 : World} (h : Off w c k w₁) (h' : Off w₁ c k w2) : Off w c k w2 where
  conns x hx := (h'.conns x hx).trans (h.conns x hx)
  clients x hx := (h'.clients x hx).trans (h.clients x hx)
  deviceList := h'.deviceList.trans h.deviceList
  devices d dev hd := by
    obtain ⟨col, hd1⟩ := h.devices d dev hd
    obtain ⟨col', hd2⟩ := h'.devices d _ hd1
    exact ⟨col', hd2⟩

theorem Near.off (h : Near w c k conn w') : Off w c k w' where
  conns x hx := by
    obtain ⟨mux, hmux⟩ := h.conns
    rw [hmux]
    exact update_of_ne hx _ _
  clients := h.others
  deviceList := h.deviceList
  devices d dev hd := ⟨dev.connections, by rw [h.devices]; exact hd⟩

theorem SameBut.off (h : SameBut k w w') (c : Ptr) : Off w c k w' where
  conns x _ := by rw [h.conns]
  clients := h.clients
  deviceList := h.deviceList
  devices d dev hd := ⟨dev.connections, by rw [h.devices]; exact hd⟩

theorem Torn.off (h : Torn env v w c k conn dev slots w') (hd : w.devices conn.dev = some dev) :
    Off w c k w' where
  conns x hx := by
    rw [h.conns]
    exact update_of_ne hx _ _
  clients := h.others
  deviceList := h.deviceList
  devices x devx hx := by
    rw [h.devices]
    by_cases hxd : x = conn.dev
    · subst hxd
      rw [hd] at hx
      cases hx
      exact ⟨_, update_self _ _ _⟩
    · exact ⟨devx.connections, (update_of_ne hxd _ _).trans hx⟩

/-- What a handler leaves behind that is done with a connection. -/
structure Done (env : Outside) (v : Scope) (w : World) (c k : Ptr) (w' : World) : Prop where
  inv : Inv env v.bare w'
  off : Off w c k w'

theorem Done.after (h : Done env v w₁ c k w') (hoff : Off w c k w₁) : Done env v w c k w' :=
  ⟨h.inv, hoff.trans h.off⟩

theorem Torn.done (h : Torn env v w c k conn dev slots w') (hd : w.devices conn.dev = some dev) :
    Done env v w c k w' :=
  ⟨h.inv, h.off hd⟩

/-! ## Flags and masks -/

theorem clientSetEvents_spec (h : Holds env v w c k conn dev slots cl) (pollin pollout : Bool) :
    Meets (clientSetEvents k pollin pollout) w (fun _ w' => ∃ cl',
      Holds env v w' c k conn dev slots cl' ∧ cl'.state = cl.state ∧
        cl'.connectDevice = cl.connectDevice ∧ SameBut k w w') E := by
  have hset : ∀ cl' : Client, cl'.connectDevice = cl.connectDevice → cl'.state = cl.state →
      ClientOk env cl' (w.ledger k) →
      Holds env v (w.setClient k cl') c k conn dev slots cl' ∧
        SameBut k w (w.setClient k cl') := by
    intro cl' hdevice hstate hok
    have hinv := h.inv.touchClient h.clientAt hdevice hstate id hok
    rw [note_id] at hinv
    refine ⟨{ h with inv := hinv, clientAt := update_self _ _ _ }, ?_⟩
    exact ⟨rfl, rfl, rfl, fun _ hx => update_of_ne hx _ _, rfl, rfl, rfl⟩
  have hok := h.inv.books.live k cl h.clientAt
  rw [clientSetEvents, meets_bind, meets_getClient h.clientAt]
  by_cases hconnected : cl.state = .connected
  · rw [if_pos hconnected, meets_modify]
    obtain ⟨hholds, hsame⟩ := hset
      { cl with pollin := pollin, pollout := pollout, devPollin := pollin, devPollout := pollout }
      rfl rfl { hok with }
    exact ⟨_, hholds, rfl, rfl, hsame⟩
  · rw [if_neg hconnected]
    by_cases hconnecting : cl.state = .connecting2
    · rw [if_pos hconnecting, meets_modify]
      obtain ⟨hholds, hsame⟩ := hset { cl with devPollin := pollin, devPollout := pollout }
        rfl rfl { hok with }
      exact ⟨_, hholds, rfl, rfl, hsame⟩
    · rw [if_neg hconnecting]
      exact ⟨cl, h, rfl, rfl, SameBut.refl k w⟩

theorem Matched.updated (h : Matched m s) : Matched (Usbmuxd.updateConnection m) s := by
  rcases h with h | ⟨hm, hs, _, hacked⟩ | h
  · exact .inl h
  · exact .inr (.inl ⟨hm, hs, decide_eq_false (not_not_intro hacked), hacked⟩)
  · exact .inr (.inr h)

theorem updateConnection_holds (h : Holds env v w c k conn dev slots cl) :
    Meets (updateConnection c) w (fun _ w' => ∃ cl',
      Holds env v w' c k (conn.withMux (Usbmuxd.updateConnection conn.mux)) dev slots cl' ∧
        cl'.state = cl.state ∧ cl'.connectDevice = cl.connectDevice ∧ Off w c k w') E := by
  rw [updateConnection, meets_bind, meets_getConn h.connAt, meets_bind, meets_modify, h.client]
  have h1 : Holds env v (w.setConn c (conn.withMux (Usbmuxd.updateConnection conn.mux))) c k
      (conn.withMux (Usbmuxd.updateConnection conn.mux)) dev slots cl :=
    h.setMux (Usbmuxd.updateConnection conn.mux) rfl (Quiet.refl _) rfl
  refine (clientSetEvents_spec h1 _ _).post ?_
  rintro _ w2 ⟨cl', h2, hstate, hdevice, hsame⟩
  exact ⟨cl', h2, hstate, hdevice, (Off.setConn w c k _).trans (hsame.off c)⟩

theorem updateConnection_spec (h : Holds env v w c k conn dev slots cl)
    (hid : cl.connectDevice = dev.id) (hm : Matched conn.mux cl.state) :
    Meets (updateConnection c) w (fun _ w' => Done env v w c k w') E := by
  refine (updateConnection_holds h).post ?_
  rintro _ w' ⟨cl', h', hstate, hdevice, hoff⟩
  exact ⟨h'.put (hdevice.trans hid) (by rw [hstate]; exact hm.updated), hoff⟩

theorem Matched.tearable (h : Matched m s) : Tearable m.state s := by
  rcases h with ⟨hm, hs⟩ | ⟨hm, hs, _, _⟩ | ⟨hm, hs⟩
  · exact .inl ⟨.inl hm, hs⟩
  · exact .inr ⟨.inl hm, .inl hs⟩
  · exact .inr ⟨.inl hm, .inr hs⟩

/-- What `connection_teardown` may count on, whoever calls it. -/
structure Calls (env : Outside) (v : Scope) (E : Fault → Prop) : Prop where
  memory : v.memory → ∀ t, env.memory t = true
  overrun : E .overrun
  uninitialised : ¬ v.gate → E .uninitialised

theorem Holds.tornDown (h : Holds env v w c k conn dev slots cl) (hcalls : Calls env v E)
    (hs : Tearable conn.mux.state cl.state) (hid : cl.connectDevice = dev.id)
    (hlock : cl.state = .connecting2 → v.deviceLock = true → E .relock) :
    Meets (connectionTeardown env c) w (fun _ w' => Torn env v w c k conn dev slots w') E :=
  h.teardown hs hid hlock hcalls.memory hcalls.overrun hcalls.uninitialised 0

theorem Holds.sendTcp (h : Holds env v w c k conn dev slots cl) (flags : U8) (data : List UInt8) :
    Meets (sendTcp env c flags data) w (fun ok w' => ∃ mux, Sent conn.mux mux ok ∧
      Holds env v w' c k (conn.withMux mux) dev slots cl ∧ Near w c k conn w') E := by
  refine (sendTcp_spec h.connAt h.devAt flags data).post ?_
  rintro ok w₁ ⟨mux, hsent, hq, he⟩
  refine ⟨mux, hsent, h.setMux mux hsent.sport hq he, hq.devices, hq.deviceList, ?_, mux, hq.conns⟩
  intro x _
  rw [hq.clients]
  rfl

/-- **`send_tcp_ack`.** -/
theorem sendTcpAck_spec (h : Holds env v w c k conn dev slots cl) (hcalls : Calls env v E)
    (hid : cl.connectDevice = dev.id) (hm : Matched conn.mux cl.state)
    (hlock : cl.state = .connecting2 → v.deviceLock = true → E .relock) :
    Meets (sendTcpAck env c) w (fun _ w' => Done env v w c k w') E := by
  rw [sendTcpAck]
  refine (h.sendTcp thAck []).bind ?_
  rintro ok w₁ ⟨mux, hsent, h1, hnear⟩
  cases ok with
  | true =>
    refine (updateConnection_spec h1 hid (hsent.matched hm)).post ?_
    exact fun _ _ hdone => hdone.after hnear.off
  | false =>
    refine (h1.tornDown hcalls (hsent.matched hm).tearable hid hlock).post ?_
    exact fun _ _ htorn => (htorn.done h1.devAt).after hnear.off

/-! ## Segments for an open connection -/

theorem Holds.mux (h : Holds env v w c k conn dev slots cl) (mux : MuxConnection)
    (hsport : mux.sport = conn.mux.sport) :
    Holds env v (w.setConn c (conn.withMux mux)) c k (conn.withMux mux) dev slots cl :=
  h.setMux mux hsport (Quiet.refl _) rfl

theorem sendTcpAck_freed (hc : w.conns c = none) (hE : E .connFreed) {Q : Unit → World → Prop} :
    Meets (sendTcpAck env c) w Q E := by
  rw [sendTcpAck, Daemon.sendTcp, meets_bind, meets_bind, meets_getConn_freed hc]
  exact hE

variable {th : Tcphdr} {payload : List UInt8}

theorem connectedInput_spec (h : Holds env v w c k conn dev slots cl) (hcalls : Calls env v E)
    (hid : cl.connectDevice = dev.id) (hm : Matched conn.mux cl.state)
    (hopen : conn.mux.state = .connected) (hlock : v.deviceLock = false)

    (hover : th.flags = thAck →
      conn.mux.ibSize + BitVec.ofNat 32 payload.length > conn.mux.ibCapacity → E .connFreed) :
    Meets (connectedInput env c conn th payload) w (fun _ w' => Done env v w c k w') E := by
  have hfree : cl.state = .connecting2 → v.deviceLock = true → E .relock := by
    intro _ hheld
    rw [hlock] at hheld
    cases hheld
  have hclient : cl.state = .connecting2 ∨ cl.state = .connected := by
    rcases hm with ⟨hm, _⟩ | ⟨_, hs, _, _⟩ | ⟨_, hs⟩
    · rw [hopen] at hm
      cases hm
    · exact .inl hs
    · exact .inr hs
  rw [connectedInput]
  by_cases hflags : th.flags = thAck
  · rw [if_neg (not_not_intro hflags), meets_bind, connectionDeviceInput, meets_bind,
      meets_getConn h.connAt]
    dsimp only
    split
    · next hlong =>
        refine (h.tornDown hcalls hm.tearable hid hfree).post ?_
        rintro _ w₁ htorn
        refine sendTcpAck_freed ?_ (hover hflags hlong)
        rw [htorn.conns]
        exact update_self _ _ _
    · rw [meets_bind, meets_modify]
      generalize hmux : ({ conn.mux with
        ibBuf := memcpy conn.mux.ibBuf conn.mux.ibSize.toNat payload
        ibSize := conn.mux.ibSize + BitVec.ofNat 32 payload.length
        rxRecvd := conn.mux.rxRecvd + BitVec.ofNat 32 payload.length } : MuxConnection) = mux
      have hm₁ : Matched mux cl.state := by
        rw [← hmux]
        exact hm
      refine (updateConnection_holds (h.mux mux (by rw [← hmux]))).post ?_
      rintro _ w₂ ⟨cl', h₂, hstate, hdevice, hoff⟩
      refine (sendTcpAck_spec h₂ hcalls (hdevice.trans hid) ?_ ?_).post ?_
      · rw [hstate]
        exact hm₁.updated
      · rw [hstate]
        exact hfree
      · exact fun _ _ hdone => hdone.after ((Off.setConn w c k _).trans hoff)
  · rw [if_pos hflags, meets_bind, meets_modify]
    generalize hmux : (if th.flags &&& thRst ≠ 0 then { conn.mux with state := .dying }
      else conn.mux) = mux
    have hstate : (mux.state = .connected ∨ mux.state = .dying) ∧ mux.sport = conn.mux.sport := by
      rw [← hmux]
      split
      · exact ⟨.inr rfl, rfl⟩
      · exact ⟨.inl hopen, rfl⟩
    have h₁ := h.mux mux hstate.2
    refine (h₁.tornDown hcalls (.inr ⟨hstate.1, hclient⟩) hid hfree).post ?_
    exact fun _ _ htorn => (htorn.done h₁.devAt).after (Off.setConn w c k _)

/-! ## Segments for a connection that is being opened -/

theorem usbmuxd_sendPacket_empty (env : Env) (s : Sys) (th : Tcphdr) :
    (Usbmuxd.sendPacket env s .tcp (.tcp th) []).2.isSome = env.usbSend s.tick ∧
      (Usbmuxd.sendPacket env s .tcp (.tcp th) []).1.tick = s.tick + 1 := by
  have hfits : ¬ muxHeaderSize s.dev + sizeofTcphdr + ([] : List UInt8).length > usbMtu := by
    rw [muxHeaderSize]
    split
    · decide
    · decide
  have hpacket : Usbmuxd.sendPacket env s .tcp (.tcp th) [] =
      (({ s with dev := if s.dev.version < 2 then s.dev else
          { stampSeqs s.dev .tcp with txSeq := (stampSeqs s.dev .tcp).txSeq + 1 } }.asked).log
        (.packetOut ⟨.tcp, muxHeaderSize s.dev + sizeofTcphdr + ([] : List UInt8).length,
          if s.dev.version < 2 then none else
            some ((stampSeqs s.dev .tcp).txSeq, (stampSeqs s.dev .tcp).rxSeq), .tcp th, []⟩
          (env.usbSend s.tick)),
        if env.usbSend s.tick then
          some (muxHeaderSize s.dev + sizeofTcphdr + ([] : List UInt8).length) else none) :=
    if_neg hfits
  rw [hpacket]
  cases env.usbSend s.tick with
  | true => exact ⟨rfl, rfl⟩
  | false => exact ⟨rfl, rfl⟩

theorem usbmuxd_sendTcp_empty (env : Env) (s : Sys) (m : MuxConnection) (flags : U8) :
    (Usbmuxd.sendTcp env s m flags []).2.2.isSome = env.usbSend s.tick ∧
      ((Usbmuxd.sendTcp env s m flags []).2.2.isSome = true →
        (Usbmuxd.sendTcp env s m flags []).1.tick = s.tick + 2) := by
  obtain ⟨husb, htick⟩ := usbmuxd_sendPacket_empty env s (m.tcphdr flags)
  rw [Usbmuxd.sendTcp]
  split
  · next hsent =>
      rw [hsent] at husb htick
      refine ⟨husb, fun _ => ?_⟩
      exact congrArg (· + 1) htick
  · next hsent =>
      rw [hsent] at husb
      exact ⟨husb, by simp⟩

theorem sendTcp_ticks (hc : w.conns c = some conn) (hd : w.devices conn.dev = some dev)
    (flags : U8) : Meets (sendTcp env c flags []) w
      (fun ok w' => ok = true → env.usbSend w.tick = true ∧ w'.tick = w.tick + 2) E := by
  obtain ⟨husb, htick⟩ := usbmuxd_sendTcp_empty env.toEnv (w.sys conn.dev dev) conn.mux flags
  rw [sendTcp, meets_bind, meets_getConn hc, meets_bind, meets_getDev hd, meets_bind, meets_get]
  intro hok
  exact ⟨husb.symm.trans hok, htick hok⟩

theorem teardown_clientless (hc : w.conns c = some conn) (hclient : conn.client = none)
    (halive : conn.mux.state ≠ .dead) (hd : w.devices conn.dev = some dev)
    (hs : dev.connections = some slots) :
    Meets (connectionTeardown env c) w (fun _ w' => w'.conns c = none) E := by
  have hend : ∀ w₁ mux, w₁.conns c = some (conn.withMux mux) → w₁.devices conn.dev = some dev →
      Meets (tellClient env (clientCloseBy (teardownAt env 1)) c >>= fun _ => freeConn c) w₁
        (fun _ w' => w'.conns c = none) E := by
    intro w₁ mux hc1 hd1
    have hclient1 : (conn.withMux mux).client = none := hclient
    rw [meets_bind, tellClient, meets_bind, meets_getConn hc1, hclient1]
    simp only []
    rw [meets_pure, freeConn, meets_bind, meets_getConn hc1, connectionsOf, meets_bind, meets_bind,
      meets_getDev (show w₁.devices (conn.withMux mux).dev = some dev from hd1), hs, meets_bind,
      meets_modify, meets_pure, meets_bind]
    have hd2 : ({ w₁ with early := w₁.early || !dev.ready } : World).devices
        (conn.withMux mux).dev = some dev := hd1
    rw [meets_getDev hd2]
    exact update_self _ _ _
  rw [connectionTeardown, teardownAt, connectionTeardownBy, meets_bind, meets_getConn hc,
    if_neg halive, meets_bind, meets_getDev hd]
  split
  · refine (sendTcp_spec hc hd thRst []).bind ?_
    rintro _ w₁ ⟨mux, -, hq, -⟩
    refine hend w₁ mux ?_ ?_
    · rw [hq.conns]
      exact update_self _ _ _
    · rw [hq.devices]
      exact hd
  · exact hend w conn.mux hc hd

theorem ClientOk.told {l : Ledger} (h : ClientOk env cl l) (hs : cl.state = .connecting1)
    (hresult : EndsWithResult env l.queued) :
    ClientOk env { cl with state := .connecting2, pollin := false, pollout := true, ibNull := true }
      { l with ibFrees := l.ibFrees + 1 } := by
  have hnot : cl.state ≠ .connected := by
    rw [hs]
    nofun
  have hib : cl.ibNull = false := by
    rw [← Bool.not_eq_true]
    intro hn
    rcases h.ibNull hn with hc | hc | hc <;> rw [hs] at hc <;> cases hc
  have hraw : ∀ x ∈ l.wire, x.isRaw = false := h.raw.resolve_left hnot
  refine { h with
    ibFrees := ?_, ibNull := fun _ => .inl rfl, obNull := ?_, muted := fun _ => rfl, raw := .inr hraw, drained := by nofun,
    result := fun _ => hresult, ordered := Ledger.Ordered.of_no_raw hraw }
  · show l.ibFrees + 1 = if true = true then 1 else 0
    rw [h.ibFrees, hib]
    rfl
  · intro hn
    exact absurd (h.obNull hn) hnot

/-- The good news cannot be queued. -/
def Refused (env : Outside) (cl : Client) (t : Nat) : Prop :=
  ∃ cl', cl.sendPkt (resultReply env cl.protoVersion cl.connectTag resultOk (env.memory t)) =
    some (cl', false)

theorem clientNotifyConnect_spec (h : Holds env v w c k conn dev slots cl)
    (hs : cl.state = .connecting1) (hover : E .overrun) :
    Meets (clientNotifyConnect env k resultOk) w (fun told w' => SameBut k w w' ∧
      (told = true → ∃ cl', Holds env v w' c k conn dev slots cl' ∧ cl'.state = .connecting2 ∧
        cl'.connectDevice = cl.connectDevice) ∧
      (told = false → Refused env cl w.tick)) E := by
  rw [clientNotifyConnect, meets_bind, meets_getClient h.clientAt, hs, if_neg (by decide),
    if_neg (by decide)]
  refine (sendResult_spec h.inv h.clientAt (.inr (.inr hs)) hover cl.connectTag resultOk).bind ?_
  rintro done w₁ ⟨cl1, hsend, hk1, hr, hinv, hsame, hqueued⟩
  cases done with
  | false => exact ⟨hsame, fun htold => absurd htold Bool.false_ne_true, fun _ => ⟨cl1, hsend⟩⟩
  | true =>
    have hs1 : cl1.state = .connecting1 := hr.state.trans hs
    have hresult : EndsWithResult env (w₁.ledger k).queued :=
      ⟨_, cl.protoVersion, cl.connectTag, env.memory w.tick, hqueued⟩
    have hok := (hinv.books.live k cl1 hk1).told hs1 hresult
    have h1 : Holds env v w₁ c k conn dev slots cl1 :=
      { h with
        inv := hinv, clientAt := hk1, connAt := by rw [hsame.conns]; exact h.connAt
        devAt := by rw [hsame.devices]; exact h.devAt }
    have hdevice : ({ cl1 with
        state := .connecting2, pollin := false, pollout := true, ibNull := true } :
          Client).connectDevice = cl1.connectDevice := rfl
    have hinv2 := h1.inv.setClient hk1 hdevice (fun _ => hs1 ▸ .inl rfl) ?_ ?_ (fun hne => absurd h.clientHeld.symm hne)
      (fun l => { l with ibFrees := l.ibFrees + 1 }) hok
    · simp only [Bool.not_true, Bool.false_eq_true, if_false]
      rw [meets_bind, meets_getClient hk1, if_pos True.intro, meets_bind, meets_modify, meets_pure]
      refine ⟨hsame.trans (SameBut.setClient _ _), fun _ => ⟨_, { h1 with
        inv := hinv2, clientAt := update_self _ _ _ }, rfl, hr.connectDevice⟩,
        fun hfalse => absurd hfalse.symm Bool.false_ne_true⟩
    · exact fun _ => .inr (.inl rfl)
    · intro x cx hx hcx hclient
      exact absurd hclient (h1.alone hx hcx)

theorem MuxConnection.synAcked_frame (m : MuxConnection) :
    m.synAcked.state = m.state ∧ m.synAcked.sport = m.sport :=
  ⟨rfl, rfl⟩

theorem opened_spec (h : Holds env v w c k conn dev slots cl) (hcalls : Calls env v E)
    (hid : cl.connectDevice = dev.id) (hconnecting : cl.state = .connecting1)
    (hopen : conn.mux.state = .connected) (hacked : conn.mux.ackPending = false)
    (htx : conn.mux.txAcked = conn.mux.txAck) (hrefused : Refused env cl w.tick → E .connFreed) :
    Meets (do
      let told ← clientNotifyConnect env k resultOk
      if !told then
        let conn ← getConn c
        modify fun w => w.setConn c { conn with client := none }
        connectionTeardown env c
        updateConnection c
      else
        updateConnection c) w (fun _ w' => Done env v w c k w') E := by
  refine (clientNotifyConnect_spec h hconnecting hcalls.overrun).bind ?_
  rintro told w₁ ⟨hsame, htold, hnot⟩
  cases told with
  | true =>
    obtain ⟨cl1, h1, hstate, hdevice⟩ := htold rfl
    have hm : Matched conn.mux cl1.state := .inr (.inl ⟨hopen, hstate, hacked, htx⟩)
    refine (updateConnection_spec h1 (hdevice.trans hid) hm).post ?_
    exact fun _ _ hdone => hdone.after (hsame.off c)
  | false =>
    have hc1 : w₁.conns c = some conn := by
      rw [hsame.conns]
      exact h.connAt
    have hd1 : w₁.devices conn.dev = some dev := by
      rw [hsame.devices]
      exact h.devAt
    have halive : conn.mux.state ≠ .dead := by
      rw [hopen]
      nofun
    simp only [Bool.not_false, if_true]
    rw [meets_bind, meets_getConn hc1, meets_bind, meets_modify]
    have hc2 : (w₁.setConn c { conn with client := none }).conns c =
        some { conn with client := none } := update_self _ _ _
    refine (teardown_clientless hc2 rfl halive hd1 h.slotsAt).bind ?_
    intro _ w2 hfreed
    rw [updateConnection, meets_bind, meets_getConn_freed hfreed]
    exact hrefused (hnot rfl)

theorem connectingInput_spec (h : Holds env v w c k conn dev slots cl) (hcalls : Calls env v E)
    (hid : cl.connectDevice = dev.id) (hm : Matched conn.mux cl.state)
    (hshut : conn.mux.state = .connecting)
    (hrefused : th.flags = thSyn ||| thAck → env.usbSend w.tick = true →
      Refused env cl (w.tick + 2) → E .connFreed) :
    Meets (connectingInput env c conn th) w (fun _ w' => Done env v w c k w') E := by
  have hclient : cl.state = .connecting1 := by
    rcases hm with ⟨_, hs⟩ | ⟨ho, _⟩ | ⟨ho, _⟩
    · exact hs
    · rw [hshut] at ho
      cases ho
    · rw [hshut] at ho
      cases ho
  have hfree : cl.state = .connecting2 → v.deviceLock = true → E .relock := by
    intro hs
    rw [hclient] at hs
    cases hs
  rw [connectingInput]
  by_cases hflags : th.flags = thSyn ||| thAck
  · rw [if_neg (not_not_intro hflags), meets_bind, meets_modify]
    obtain ⟨hstate, hsport⟩ := MuxConnection.synAcked_frame conn.mux
    have h1 := h.mux conn.mux.synAcked hsport
    refine Meets.bind ((h1.sendTcp thAck []).both
      (sendTcp_ticks (E := E) h1.connAt h1.devAt thAck)) ?_
    rintro ok w2 ⟨⟨mux, hsent, h2, hnear⟩, htick⟩
    have hmux : mux.state = .connecting := (hsent.state.trans hstate).trans hshut
    have hoff : Off w c k w2 := (Off.setConn w c k _).trans hnear.off
    cases ok with
    | false =>
      simp only [Bool.not_false, if_true]
      refine (h2.tornDown hcalls (.inl ⟨.inl hmux, hclient⟩) hid hfree).post ?_
      exact fun _ _ htorn => (htorn.done h2.devAt).after hoff
    | true =>
      obtain ⟨husb, htick⟩ := htick rfl
      simp only [Bool.not_true, Bool.false_eq_true, if_false]
      rw [meets_bind, meets_getConn h2.connAt, meets_bind, meets_modify, h2.client]
      obtain ⟨t, hsent⟩ := hsent
      have h3 := h2.mux { mux with state := .connected } rfl
      refine (opened_spec h3 hcalls hid hclient rfl ?_ ?_ ?_).post ?_
      · show mux.ackPending = false
        rw [hsent]
      · show mux.txAcked = mux.txAck
        rw [hsent]
      · intro hno
        have htick2 : w2.tick = w.tick + 2 := htick
        refine hrefused hflags husb ?_
        rw [← htick2]
        exact hno
      · exact fun _ _ hdone => hdone.after (hoff.trans (Off.setConn w2 c k _))
  · rw [if_pos hflags, meets_bind, meets_modify]
    generalize hmux : (if th.flags &&& thRst ≠ 0 then { conn.mux with state := .refused }
      else conn.mux) = mux
    have hstate : (mux.state = .connecting ∨ mux.state = .refused) ∧ mux.sport = conn.mux.sport := by
      rw [← hmux]
      split
      · exact ⟨.inr rfl, rfl⟩
      · exact ⟨.inl hshut, rfl⟩
    have h1 := h.mux mux hstate.2
    refine (h1.tornDown hcalls (.inl ⟨hstate.1, hclient⟩) hid hfree).post ?_
    exact fun _ _ htorn => (htorn.done h1.devAt).after (Off.setConn w c k _)

/-! ## Whose segment it is -/

/-- The connection of a device with the ports of a segment. -/
def World.connFor (w : World) (d : Ptr) (th : Tcphdr) : Option Ptr :=
  (w.devices d).bind fun dev => dev.connections.bind fun slots =>
    slots.find? w.conns (Conn.hasPorts th)

theorem World.connFor_eq (hd : w.devices d = some dev) (hs : dev.connections = some slots)
    (th : Tcphdr) : w.connFor d th = slots.find? w.conns (Conn.hasPorts th) := by
  rw [World.connFor, hd, bind_some, hs, bind_some]

theorem connFor_some (h : w.connFor d th = some c) :
    w.Lists d c ∧ ∃ conn, w.conns c = some conn ∧ conn.hasPorts th = true := by
  rw [World.connFor] at h
  obtain ⟨dev, hd, h⟩ := bind_eq_some_iff.mp h
  obtain ⟨slots, hs, h⟩ := bind_eq_some_iff.mp h
  obtain ⟨hmem, conn, hconn, hports⟩ := find?_any h
  exact ⟨⟨dev, slots, hd, hs, hmem⟩, conn, hconn, hports⟩

theorem Inv.connFor_unique (h : Inv env v w) (hl : w.Lists d c) (hc : w.conns c = some conn)
    (hports : conn.hasPorts th = true) : w.connFor d th = some c := by
  have hsport : ∀ cx : Conn, cx.hasPorts th = true → cx.mux.sport = th.dport := by
    intro cx hx
    exact of_decide_eq_true (Bool.and_eq_true_iff.mp hx).1
  obtain ⟨dev, slots, hd, hs, hmem⟩ := hl
  rw [World.connFor_eq hd hs]
  cases hfind : slots.find? w.conns (Conn.hasPorts th) with
  | none =>
    have hno := find?_any_none hfind hmem hc
    rw [hports] at hno
    cases hno
  | some x =>
    obtain ⟨hxmem, cx, hcx, hx⟩ := find?_any hfind
    have hsame : cx.mux.sport = conn.mux.sport := (hsport cx hx).trans (hsport conn hports).symm
    rw [h.linked.ports d x c cx conn ⟨dev, slots, hd, hs, hxmem⟩ ⟨dev, slots, hd, hs, hmem⟩ hcx hc
      hsame]

theorem strayInput_spec (h : Inv env v w) (hd : w.devices d = some dev)
    (hstray : th.flags &&& thRst = 0 → env.usbSend w.tick = false → E .connNull) :
    Meets (strayInput env d th) w (fun _ w' => Inv env v w' ∧ Quiet w w') E := by
  rw [strayInput]
  by_cases hrst : th.flags &&& thRst = 0
  · rw [if_pos hrst, meets_bind, sendAnonRst, Daemon.sendPacket, meets_bind, meets_getDev hd,
      meets_bind, meets_get, meets_bind, meets_modify, meets_pure]
    have husb := (usbmuxd_sendPacket_empty env.toEnv (w.sys d dev)
      ⟨th.dport, th.sport, 0, th.seq, thRst, 0⟩).1
    have hq : ∀ s, Quiet w (w.sent d s) :=
      fun s => ⟨rfl, rfl, rfl, rfl, rfl, rfl, rfl, rfl, rfl, rfl⟩
    split
    · exact ⟨h.quiet (hq _) h.linked.early, hq _⟩
    · next hno =>
        refine hstray hrst ?_
        exact husb.symm.trans (Bool.eq_false_iff.mpr hno)
  · rw [if_neg hrst]
    exact ⟨h, Quiet.refl w⟩

/-! ## `device_tcp_input` -/

theorem segment_spec (h : Holds env v w c k conn dev slots cl) (hcalls : Calls env v E)
    (hid : cl.connectDevice = dev.id) (hm : Matched conn.mux cl.state) (hlock : v.deviceLock = false)

    (hrefused : conn.mux.state = .connecting → th.flags = thSyn ||| thAck →
      env.usbSend w.tick = true → Refused env cl (w.tick + 2) → E .connFreed)
    (hover : conn.mux.state = .connected → th.flags = thAck →
      conn.mux.ibSize + BitVec.ofNat 32 payload.length > conn.mux.ibCapacity → E .connFreed) :
    Meets (do
      modify fun w => w.setConn c (conn.withMux (conn.mux.seen th))
      match (conn.withMux (conn.mux.seen th)).mux.state with
      | .connecting => connectingInput env c (conn.withMux (conn.mux.seen th)) th
      | .connected => connectedInput env c (conn.withMux (conn.mux.seen th)) th payload
      | _ => pure ()) w (fun _ w' => Done env v w c k w') E := by
  have h₁ := h.mux (conn.mux.seen th) rfl
  have hm₁ : Matched (conn.mux.seen th) cl.state := hm
  have hoff := Off.setConn w c k (conn.withMux (conn.mux.seen th))
  rw [meets_bind, meets_modify]
  have hstate : (conn.withMux (conn.mux.seen th)).mux.state = conn.mux.state := rfl
  have hcases : conn.mux.state = .connecting ∨ conn.mux.state = .connected := by
    rcases hm with ⟨hs, _⟩ | ⟨hs, _⟩ | ⟨hs, _⟩
    · exact .inl hs
    · exact .inr hs
    · exact .inr hs
  rcases hcases with hs | hs
  · rw [hs] at hstate
    rw [hstate]
    refine (connectingInput_spec h₁ hcalls hid hm₁ hstate ?_).post ?_
    · exact hrefused hs
    · exact fun _ _ hdone => hdone.after hoff
  · rw [hs] at hstate
    rw [hstate]
    refine (connectedInput_spec h₁ hcalls hid hm₁ hstate hlock ?_).post ?_
    · exact hover hs
    · exact fun _ _ hdone => hdone.after hoff

theorem connectionsOf_tick (d : Ptr) :
    Meets (connectionsOf d) w (fun _ w' => w'.tick = w.tick) fun _ => True := by
  rw [connectionsOf, meets_bind, getDev, meets_bind, meets_get]
  cases w.devices d with
  | none => exact trivial
  | some dev =>
    rw [meets_pure]
    cases hs : dev.connections with
    | none => exact trivial
    | some slots => exact rfl

/-- Connections other than the one with the ports of a segment are left alone, and devices keep
all but their lists. -/
structure Aside (w : World) (d : Ptr) (th : Tcphdr) (w' : World) : Prop where
  conns : ∀ x, w.connFor d th ≠ some x → w'.conns x = w.conns x
  deviceList : w'.deviceList = w.deviceList

/-- **`device_tcp_input`.** -/
theorem deviceTcpInput_spec (h : Inv env v w) (hconn : v.conn = none) (hclient : v.client = none)
    (hlock : v.deviceLock = false) (hclock : v.clientLock = false) (hcalls : Calls env v E)
    (hd : w.devices d = some dev)
    (hstray : dev.state = .active → w.connFor d th = none → th.flags &&& thRst = 0 →
      env.usbSend w.tick = false → E .connNull)
    (hrefused : ∀ c conn k cl, dev.state = .active → w.connFor d th = some c →
      w.conns c = some conn → conn.client = some k → w.clients k = some cl →
      conn.mux.state = .connecting → th.flags = thSyn ||| thAck →
      env.usbSend w.tick = true → Refused env cl (w.tick + 2) → E .connFreed)
    (hover : ∀ c conn, dev.state = .active → w.connFor d th = some c → w.conns c = some conn →
      conn.mux.state = .connected → th.flags = thAck →
      conn.mux.ibSize + BitVec.ofNat 32 payload.length > conn.mux.ibCapacity → E .connFreed) :
    Meets (deviceTcpInput env d th payload) w
      (fun _ w' => Inv env v w' ∧ Aside w d th w') E := by
  have hsame : ∀ {w'}, Quiet w w' → Aside w d th w' :=
    fun hq => ⟨fun _ _ => by rw [hq.conns], hq.deviceList⟩
  rw [deviceTcpInput, meets_bind, meets_getDev hd]
  by_cases hactive : dev.state = .active
  · have hready : v.gate → dev.state ≠ .init := by
      intro _
      rw [hactive]
      nofun
    rw [if_neg (not_not_intro hactive)]
    refine Meets.bind ((connectionsOf_spec h hd hready hcalls.uninitialised).both
      (connectionsOf_tick d)) ?_
    rintro slots w₁ ⟨⟨hs, hq, h1⟩, htick⟩
    have hd1 : w₁.devices d = some dev := by
      rw [hq.devices]
      exact hd
    rw [meets_bind, meets_search (h1.conns_live hd1 hs)]
    have hfor := World.connFor_eq hd1 hs th
    rw [Collection.find?] at hfor
    rw [← hfor]
    have hfor1 : w₁.connFor d th = w.connFor d th := by
      rw [World.connFor, World.connFor, hq.devices, hq.conns]
    rw [hfor1]
    cases hfind : w.connFor d th with
    | none =>
      refine (strayInput_spec h1 hd1 ?_).post ?_
      · rw [htick]
        exact hstray hactive hfind
      · exact fun _ w' hw' => ⟨hw'.1, hsame (hq.trans hw'.2)⟩
    | some c =>
      obtain ⟨hl, -⟩ := connFor_some (hfor1.trans hfind)
      obtain ⟨conn, slots, k, cl, hdev, hholds, hid, hm⟩ := h1.hold hconn hclient hclock hd1 hl
      have hc : w.conns c = some conn := by
        rw [← hq.conns]
        exact hholds.connAt
      have hk : w.clients k = some cl := by
        rw [← hq.clients]
        exact hholds.clientAt
      show Meets (getConn c >>= _) w₁ _ E
      rw [meets_bind, meets_getConn hholds.connAt]
      refine (segment_spec (v := v.holding c k) hholds
        ⟨hcalls.memory, hcalls.overrun, hcalls.uninitialised⟩ hid hm hlock ?_ ?_).post ?_
      · rw [htick]
        exact hrefused c conn k cl hactive hfind hc hholds.client hk
      · exact hover c conn hactive hfind hc
      · rintro _ w' ⟨hinv, hoff⟩
        have hbare : (v.holding c k).bare = v := Scope.bare_eq hconn hclient
        rw [hbare] at hinv
        refine ⟨hinv, ?_, hoff.deviceList.trans hq.deviceList⟩
        intro x hx
        rw [hoff.conns x fun hxc => hx (hfind.trans (congrArg some hxc.symm)), hq.conns]
  · rw [if_pos hactive]
    exact ⟨h, hsame (Quiet.refl w)⟩

/-! ## Loops over the connections of a device -/

theorem forEachConn_spec {body : Ptr → Handler Unit} {P : List Ptr → World → Prop}
    (hP : ∀ cs w, P cs w → Inv env v w ∧ ∃ dev, w.devices d = some dev ∧
      (v.gate → dev.state ≠ .init))
    (hquiet : ∀ cs w w', P cs w → Quiet w w' → Inv env v w' → P cs w')
    (hskip : ∀ c cs w, P (c :: cs) w → ¬ w.Lists d c → P cs w)
    (hbody : ∀ c cs w, P (c :: cs) w → w.Lists d c → Meets (body c) w (fun _ w' => P cs w') E)
    (hE : ¬ v.gate → E .uninitialised) (h : Inv env v w) (hd : w.devices d = some dev)
    (hready : v.gate → dev.state ≠ .init)
    (hstart : ∀ slots, dev.connections = some slots → P slots.elems w) :
    Meets (forEachConn d body) w (fun _ w' => P [] w') E := by
  rw [forEachConn]
  refine (connectionsOf_spec h hd hready hE).bind ?_
  rintro slots w₁ ⟨hs, hq, h1⟩
  have hall := hquiet _ _ _ (hstart slots hs) hq h1
  generalize slots.elems = cs at hall
  clear hs hq h1 hstart hready hd h
  induction cs generalizing w₁ with
  | nil => exact hall
  | cons c cs ih =>
    obtain ⟨h1, dev1, hd1, hready1⟩ := hP _ _ hall
    refine Meets.bind ?_ fun _ w2 hw2 => ih w2 hw2
    refine (connectionsOf_spec h1 hd1 hready1 hE).bind ?_
    rintro now w2 ⟨hs, hq, h2⟩
    have hall2 := hquiet _ _ _ hall hq h2
    have hd2 : w2.devices d = some dev1 := by
      rw [hq.devices]
      exact hd1
    by_cases hc : c ∈ now.elems
    · rw [if_pos hc]
      exact hbody c cs w2 hall2 ⟨dev1, now, hd2, hs, hc⟩
    · rw [if_neg hc]
      refine hskip c cs w2 hall2 ?_
      rintro ⟨dev', now', hd', hs', hc'⟩
      rw [hd2] at hd'
      cases hd'
      rw [hs] at hs'
      cases hs'
      exact hc hc'

/-! ## Timeouts -/

/-- The devices are there, each with its state and its id. -/
structure Kept (w w' : World) : Prop where
  deviceList : w'.deviceList = w.deviceList
  devices : ∀ d dev, w.devices d = some dev →
    ∃ col, w'.devices d = some { dev with connections := col }

theorem Kept.refl (w : World) : Kept w w := ⟨rfl, fun _ dev hd => ⟨dev.connections, hd⟩⟩

theorem Kept.trans {w2 : World} (h : Kept w w₁) (h' : Kept w₁ w2) : Kept w w2 where
  deviceList := h'.deviceList.trans h.deviceList
  devices d dev hd := by
    obtain ⟨col, hd1⟩ := h.devices d dev hd
    obtain ⟨col', hd2⟩ := h'.devices d _ hd1
    exact ⟨col', hd2⟩

theorem Off.kept (h : Off w c k w') : Kept w w' := ⟨h.deviceList, h.devices⟩

theorem Quiet.kept (h : Quiet w w') : Kept w w' :=
  ⟨h.deviceList, fun _ dev hd => ⟨dev.connections, by rw [h.devices]; exact hd⟩⟩

/-- The body of the inner loop of `device_check_timeouts`.  An ACK is due only where the client has
all of its result, so `client_close` does not look for a connection. -/
theorem checkTimeout_spec (h : Inv env v w) (hconn : v.conn = none) (hclient : v.client = none)
    (hclock : v.clientLock = false) (hcalls : Calls env v E) {d : Ptr}
    (hd : w.devices d = some dev) (hl : w.Lists d c) (ct : BitVec 64) :
    Meets (checkTimeout env ct c) w (fun _ w' => Inv env v w' ∧ Kept w w') E := by
  obtain ⟨conn, slots, k, cl, hdev, hholds, hid, hm⟩ := h.hold hconn hclient hclock hd hl
  have hbare : (v.holding c k).bare = v := Scope.bare_eq hconn hclient
  rw [checkTimeout, meets_bind, meets_getConn hholds.connAt]
  by_cases hdue : conn.mux.state = .connected ∧ conn.mux.ackPending = true ∧
      (ct - conn.mux.lastAckTime).toNat > ackTimeout
  · rw [if_pos hdue]
    refine (sendTcpAck_spec hholds ⟨hcalls.memory, hcalls.overrun, hcalls.uninitialised⟩ hid hm
      ?_).post ?_
    · intro hs
      rcases hm with ⟨_, hs'⟩ | ⟨_, _, hnone, _⟩ | ⟨_, hs'⟩
      · rw [hs] at hs'
        cases hs'
      · rw [hdue.2.1] at hnone
        cases hnone
      · rw [hs] at hs'
        cases hs'
    · rintro _ w' ⟨hinv, hoff⟩
      rw [hbare] at hinv
      exact ⟨hinv, hoff.kept⟩
  · rw [if_neg hdue]
    exact ⟨h, Kept.refl w⟩

theorem forDevices_spec {R : World → World → Prop}
    (htrans : ∀ w w' w'', R w w' → R w' w'' → R w w'') (hquiet : ∀ w w', Quiet w w' → R w w')
    (hR : ∀ w w', R w w' → Kept w w') (hE : ¬ v.gate → E .uninitialised)
    {body : Ptr → Handler Unit}
    (hbody : ∀ d c w dev, Inv env v w → w.devices d = some dev → w.Lists d c →
      Meets (body c) w (fun _ w' => Inv env v w' ∧ R w w') E) (h : Inv env v w) :
    Meets (w.deviceList.elems.forM fun d => do
      let dev ← getDev d
      if dev.state = .active then forEachConn d body else pure ()) w
      (fun _ w' => Inv env v w' ∧ R w w') E := by
  refine Meets.forM ?_ ⟨h, hquiet w w (Quiet.refl w)⟩
  rintro d hmem t ⟨ht, hRt⟩
  obtain ⟨dev, hd⟩ := isSome_iff_exists.mp ((h.shape.devLive d).mp hmem)
  obtain ⟨col, hdt⟩ := (hR _ _ hRt).devices d dev hd
  rw [meets_bind, meets_getDev hdt]
  by_cases hactive : dev.state = .active
  · have hready : v.gate → dev.state ≠ .init := by
      intro _
      rw [hactive]
      nofun
    rw [if_pos hactive]
    refine forEachConn_spec (P := fun _ w' => Inv env v w' ∧ R w w') ?_ ?_ ?_ ?_ hE ht hdt
      hready (fun _ _ => ⟨ht, hRt⟩)
    · rintro _ w' ⟨hw', hR'⟩
      obtain ⟨col', hd'⟩ := (hR _ _ hR').devices d dev hd
      exact ⟨hw', _, hd', hready⟩
    · rintro _ w₁ w2 ⟨_, hR1⟩ hq h2
      exact ⟨h2, htrans _ _ _ hR1 (hquiet _ _ hq)⟩
    · exact fun _ _ _ hw' _ => hw'
    · rintro c _ w' ⟨hw', hR'⟩ hl
      obtain ⟨col', hd'⟩ := (hR _ _ hR').devices d dev hd
      refine (hbody d c w' _ hw' hd' hl).post ?_
      exact fun _ _ hw'' => ⟨hw''.1, htrans _ _ _ hR' hw''.2⟩
  · rw [if_neg hactive]
    exact ⟨ht, hRt⟩

/-- **`device_check_timeouts`.** -/
theorem deviceCheckTimeouts_spec (h : Inv env v w) (hconn : v.conn = none) (hclient : v.client = none)
    (hlock : v.deviceLock = false) (hclock : v.clientLock = false) (hcalls : Calls env v E) :
    Meets (deviceCheckTimeouts env) w (fun _ w' => Inv env v w') E := by
  have hw : w.asked.deviceLock = false := h.deviceLock.trans hlock
  have h1 := h.asked.lockDevices true
  rw [deviceCheckTimeouts, meets_bind, meets_get, meets_bind, meets_modify, meets_bind,
    meets_lockDevices hw]
  refine (forDevices_spec (v := { v with deviceLock := true }) (R := Kept) (fun _ _ _ => Kept.trans)
    (fun _ _ => Quiet.kept) (fun _ _ hkept => hkept) hcalls.uninitialised ?_ h1).bind ?_
  · intro d c w2 dev h2 hd hl
    exact checkTimeout_spec h2 hconn hclient hclock
      ⟨hcalls.memory, hcalls.overrun, hcalls.uninitialised⟩ hd hl _
  · rintro _ w2 ⟨h2, -⟩
    exact h2.unlockDevices hlock

end IDeviceStack.Usbmuxd.Daemon
