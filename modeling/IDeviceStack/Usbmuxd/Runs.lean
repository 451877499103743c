/-
# `Usbmuxd.Runs` — the daemon over whole runs

Every event keeps the invariant, or stops the daemon with a fault.  For each kind of
fault there is a kind of event that brings it about, stated on the world before the
event; a run without such events does not come to the fault.

**Proved here.**

* Connections: which packets make the daemon use a freed or missing one
  (`conns_never_dangle`).
* Clients: which events release one twice, or hang in the middle (`clients_released_once`).
* The states of connections and clients agree, and replies go out before data
  (`agreement`), as long as nobody connects to a device without a version.
* So do the operations on a collection that is not there (`collections_ready`).
* Mutexes: the removal of a device in the middle of a connect is what takes one twice
  (`mutexes_once`).
* Ports: no two connections of a device share one (`ports_distinct`).
-/
import IDeviceStack.Usbmuxd.Devices

namespace IDeviceStack.Usbmuxd.Daemon

open Lib

variable {env : Outside} {w w' : World}

/-! ## Events that go wrong -/

/-- A packet that makes the daemon use a connection that is not there. -/
def Dangles (env : Outside) (w : World) : Event → Prop
  | .packet usbdev _ packet => ∃ th payload, packet.segment = some (th, payload) ∧
      (Overflows w usbdev th payload ∨ NotifyRefused env w usbdev th)
  | _ => False

/-- A packet that makes the daemon print the id of no device. -/
def Strays (env : Outside) (w : World) : Event → Prop
  | .packet usbdev _ packet => ∃ th payload, packet.segment = some (th, payload) ∧
      StrayRefused env w usbdev th
  | _ => False

/-- The socket of a client that says too much, or hangs up before it has its result. -/
def Rereleases (env : Outside) (w : World) : Event → Prop
  | .client fd pollin pollout => ∃ k cl, w.clientFor fd = some k ∧ w.clients k = some cl ∧
      ((pollin = true ∧ (SpeaksOutOfTurn env w cl ∨ HangsUp cl)) ∨
        (pollin = false ∧ pollout = true ∧ LosesResult env w cl))
  | _ => False

/-- The socket of a client without an in-buffer is readable. -/
def ReadsNull (w : World) : Event → Prop
  | .client fd pollin _ => ∃ k cl, w.clientFor fd = some k ∧ w.clients k = some cl ∧
      pollin = true ∧ ReadsOn cl
  | _ => False

/-- A client asks for a device that is still `MUXDEV_INIT`. -/
def ConnectsEarly (env : Outside) (w : World) : Event → Prop
  | .client fd pollin _ => ∃ k cl, w.clientFor fd = some k ∧ w.clients k = some cl ∧
      pollin = true ∧ AsksEarly env w cl
  | _ => False

/-- An active device is removed while one of its clients waits for its result. -/
def Relocks (w : World) : Event → Prop
  | .deviceRemove usbdev => RemovesMidway w usbdev
  | _ => False

/-- What an event has to do with a fault. -/
def Excuse (env : Outside) (gate : Prop) (w : World) (e : Event) : Fault → Prop
  | .connFreed => Dangles env w e
  | .connNull => Strays env w e
  | .clientFreed => Rereleases env w e
  | .bufferNull => ReadsNull w e
  | .relock => Relocks w e
  | .overrun => True
  | .uninitialised => ¬ gate
  | .clientNull => False
  | .deviceFreed => False
  | .depth => False

/-! ## One event -/

variable {gate memory : Prop}

theorem free_idle : Free (Scope.idle gate memory) := ⟨rfl, rfl, rfl, rfl, rfl⟩

/-- **One event.** -/
theorem handle_spec (h : Inv env (Scope.idle gate memory) w) (e : Event)
    (hgate : gate → ¬ ConnectsEarly env w e) (hmemory : memory → ∀ t, env.memory t = true) :
    Meets (handle env e) w (fun _ w' => Inv env (Scope.idle gate memory) w')
      (Excuse env gate w e) := by
  have hv : Free (Scope.idle gate memory) := free_idle
  have hcalls : Calls env (Scope.idle gate memory) (Excuse env gate w e) :=
    ⟨hmemory, trivial, fun hno => hno⟩
  cases e with
  | deviceAdd usbdev zeroed => exact deviceAdd_spec h rfl usbdev zeroed
  | deviceRemove usbdev => exact deviceRemove_spec h hv hcalls fun hmid => hmid
  | packet usbdev rxSeq packet =>
    refine (deviceDataInput_spec h hv hcalls ?_ ?_ ?_).post fun _ _ hw' => hw'.1
    · exact fun th payload hseg hstray => ⟨th, payload, hseg, hstray⟩
    · exact fun th payload hseg hover => ⟨th, payload, hseg, .inl hover⟩
    · exact fun th payload hseg hno => ⟨th, payload, hseg, .inr hno⟩
  | checkTimeouts => exact deviceCheckTimeouts_spec h rfl rfl rfl rfl hcalls
  | poll => exact pollSources_spec h hv hcalls.uninitialised
  | accept fd => exact clientAccept_spec h hv fd
  | client fd pollin pollout =>
    refine clientProcess_spec h hv hcalls ?_ ?_ ?_ ?_ ?_
    · exact fun k cl hfor hk hin hearly hg => hgate hg ⟨k, cl, hfor, hk, hin, hearly⟩
    · exact fun k cl hfor hk hin hturn => ⟨k, cl, hfor, hk, .inl ⟨hin, .inl hturn⟩⟩
    · exact fun k cl hfor hk hin hmid => ⟨k, cl, hfor, hk, .inl ⟨hin, .inr hmid⟩⟩
    · exact fun k cl hfor hk hin hnull => ⟨k, cl, hfor, hk, hin, hnull⟩
    · exact fun k cl hfor hk hin hout hlost => ⟨k, cl, hfor, hk, .inr ⟨hin, hout, hlost⟩⟩
  | announce id usbdev => exact clientDeviceAdd_spec h rfl rfl trivial id usbdev

theorem inv_start (env : Outside) (gate memory : Prop) :
    Inv env (Scope.idle gate memory) World.start := by
  have hdev : ∀ d dev, World.start.devices d = some dev → False := fun _ _ h => nomatch h
  have hconn : ∀ c conn, World.start.conns c = some conn → False := fun _ _ h => nomatch h
  have hcli : ∀ k cl, World.start.clients k = some cl → False := fun _ _ h => nomatch h
  have hlists : ∀ d c, World.start.Lists d c → False := fun d c ⟨dev, _, hd, _⟩ => hdev d dev hd
  have hempty : ∀ p, p ∈ Collection.init.elems ↔ (none : Option Device).isSome = true := by
    intro p
    rw [Collection.elems_init]
    simp
  have hempty' : ∀ p, p ∈ Collection.init.elems ↔ (none : Option Client).isSome = true := by
    intro p
    rw [Collection.elems_init]
    simp
  refine ⟨?_, ?_, ?_, rfl, rfl⟩
  · exact
      { devLive := hempty
        devNodup := List.nodup_nil
        ids := fun d _ dev _ hd => (hdev d dev hd).elim
        idsBelow := fun d dev hd => (hdev d dev hd).elim
        ready := fun d dev hd => (hdev d dev hd).elim
        slotsNodup := fun d dev _ hd => (hdev d dev hd).elim
        cliLive := hempty'
        cliNodup := List.nodup_nil
        connLive := fun d c hl => (hlists d c hl).elim
        below := fun _ _ => ⟨rfl, rfl, rfl, rfl⟩
        clientBelow := fun c conn _ hc => (hconn c conn hc).elim }
  · exact
      { paired := fun d c _ hl => (hlists d c hl).elim
        single := fun c _ conn _ _ hc => (hconn c conn hc).elim
        busy := fun c conn _ _ _ hc => (hconn c conn hc).elim
        awake := fun k cl _ hk => (hcli k cl hk).elim
        ports := fun d c _ _ _ hl => (hlists d c hl).elim
        portNonzero := fun d c _ hl => (hlists d c hl).elim
        known := fun k cl hk => (hcli k cl hk).elim
        listed := fun _ c conn _ hc => (hconn c conn hc).elim
        early := fun _ => rfl
        gated := fun _ k cl _ _ hk => (hcli k cl hk).elim
        served := fun _ _ k cl _ hk => (hcli k cl hk).elim
        undead := fun d dev hd => (hdev d dev hd).elim }
  · refine ⟨fun k cl hk => (hcli k cl hk).elim, ?_⟩
    intro k haccepted
    have hblank : (World.start.ledger k).accepted = false := rfl
    rw [hblank] at haccepted
    cases haccepted

/-! ## All events -/

theorem inv_run {events : List Event}
    (hgate : gate → Along (step env) (fun w e => ¬ ConnectsEarly env w e) World.start events)
    (hmemory : memory → ∀ t, env.memory t = true) (hrun : run env events = .ok w) :
    Inv env (Scope.idle gate memory) w := by
  have halong : Along (step env) (fun w e => gate → ¬ ConnectsEarly env w e) World.start events := by
    by_cases hg : gate
    · exact (hgate hg).mono fun _ _ hno _ => hno
    · exact Along.of_forall fun _ _ hg' => absurd hg' hg
  refine halong.inv ?_ (inv_start env gate memory) hrun
  intro t e t' ht hno hstep
  obtain ⟨-, hinv⟩ := (handle_spec ht e hno hmemory).after_ok hstep
  exact hinv

theorem fault_run (gate : Prop) {P : World → Event → Prop} {events : List Event} {f : Fault}
    (h : Along (step env) P World.start events)
    (hgate : ∀ t e, P t e → gate → ¬ ConnectsEarly env t e) (hrun : run env events = .error f) :
    ∃ t e, P t e ∧ Excuse env gate t e f := by
  have hmemory : False → ∀ t, env.memory t = true := nofun
  have hkeep : ∀ t e t', Inv env (Scope.idle gate False) t → P t e → step env t e = .ok t' →
      Inv env (Scope.idle gate False) t' := by
    intro t e t' ht hP hstep
    obtain ⟨-, hinv⟩ := (handle_spec ht e (hgate t e hP) hmemory).after_ok hstep
    exact hinv
  obtain ⟨t, e, ht, hP, hstep⟩ := h.fault hkeep (inv_start env gate False) hrun
  exact ⟨t, e, hP, (handle_spec ht e (hgate t e hP) hmemory).after_error hstep⟩

/-! ## A small world outside -/

theorem length_zeroed : (List.replicate connInbufSize (0 : UInt8)).length = connInbufSize :=
  List.length_replicate

/-- The answers of an outside where nothing fails but what the arguments say: `usb` answers
`usb_send`, `send` takes all bytes or none, and `recv` reads from `msgs`. -/
def sample (usb send : Nat → Bool) (msgs : List (List UInt8)) : Outside where
  usbSend := usb
  clientSend t len := if send t then some (Fin.last len) else none
  clientRecv t len := if h : (msgs.getD t []).length ≤ len then some ⟨msgs.getD t [], h⟩ else none
  notifyConnect _ := true
  mstime64 _ := 0
  memory _ := true
  inBuf _ := ⟨List.replicate connInbufSize 0, length_zeroed⟩
  thread _ := true
  stale _ := []
  plistRequest _ := .unreadable
  xml _ := ⟨[], by decide⟩
  deviceRecord _ _ := ⟨[], by decide⟩
  readRecord _ _ := none
  saveRecord _ _ _ := 0
  removeRecord _ _ := 0

/-- The header and the body of a request to connect to port 80 of the first device. -/
def connectHeader : List UInt8 := [24, 0, 0, 0, 0, 0, 0, 0, 2, 0, 0, 0, 7, 0, 0, 0]
def connectBody : List UInt8 := [1, 0, 0, 0, 0, 80, 0, 0]

/-- A segment from port 80 to the first port of the daemon. -/
def segment (flags : U8) : Packet := .tcp ⟨80, 1, 0, 0, flags, 512⟩ ⟨[], Nat.zero_le _⟩

/-- A device, its version, a client, its request, and the answer of the device. -/
def dialogue : List Event :=
  [.deviceAdd 5 true, .packet 5 0 (.version 1), .accept 9, .client 9 true false,
    .client 9 true false, .packet 5 0 (segment (thSyn ||| thAck))]

/-- The result goes out to the client, and the device is unplugged. -/
def delivered : List Event := dialogue ++ [.client 9 false true, .deviceRemove 5]

/-- The outside of this dialogue. -/
def answering : Outside :=
  sample (fun _ => true) (fun _ => true) [[], [], connectHeader, connectBody]

/-- The lists of devices and clients show that an event does not go wrong. -/
def calm (env : Outside) (w : World) : Event → Bool
  | .client fd pollin _ => (w.clientFor fd).all fun k => (w.clients k).all fun cl =>
      if pollin then
        cl.state = .command ∧
          w.deviceList.elems.all fun d => (w.devices d).all fun dev => dev.state ≠ .init
      else cl.state ≠ .connecting2 ∨ (w.drain env cl).isSome
  | .deviceRemove _ => w.clientList.elems.all fun k =>
      (w.clients k).all fun cl => cl.state ≠ .connecting2
  | _ => true

theorem calm_client {fd : Nat} {pollin pollout : Bool} {k : Ptr} {cl : Client}
    (hcalm : calm env w (.client fd pollin pollout) = true) (hfor : w.clientFor fd = some k)
    (hk : w.clients k = some cl) :
    if pollin then
      cl.state = .command ∧
        w.deviceList.elems.all fun d => (w.devices d).all fun dev => dev.state ≠ .init
    else cl.state ≠ .connecting2 ∨ (w.drain env cl).isSome := by
  rw [calm, hfor, Option.all_some, hk, Option.all_some] at hcalm
  cases pollin <;> simpa using hcalm

theorem calm_spec (h : Inv env (Scope.idle False False) w) {e : Event}
    (hcalm : calm env w e = true) :
    (¬ Rereleases env w e ∧ ¬ ReadsNull w e ∧ ¬ Relocks w e) ∧ ¬ ConnectsEarly env w e := by
  have hclient : ∀ {fd pollin pollout k cl}, e = .client fd pollin pollout →
      w.clientFor fd = some k → w.clients k = some cl → _ := fun he hfor hk =>
    calm_client (he ▸ hcalm) hfor hk
  cases e with
  | client fd pollin pollout =>
    refine ⟨⟨?_, ?_, False.elim⟩, ?_⟩
    · rintro ⟨k, cl, hfor, hk, ⟨rfl, hturn | hmid⟩ | ⟨rfl, -, hmid, hlost⟩⟩
      · have hs := (hclient rfl hfor hk).1
        rcases hturn.1 with h' | h' <;> rw [hs] at h' <;> cases h'
      · have hs := (hclient rfl hfor hk).1.symm.trans hmid.1
        cases hs
      · rcases hclient rfl hfor hk with hs | hsome
        · exact hs hmid
        · rw [hlost] at hsome
          cases hsome
    · rintro ⟨k, cl, hfor, hk, rfl, hmid, -⟩
      have hs := (hclient rfl hfor hk).1.symm.trans hmid
      cases hs
    · rintro ⟨k, cl, hfor, hk, rfl, -, ib, -, hopen⟩
      refine hopen fun id _ d dev hd _ => ?_
      have hall := List.all_eq_true.mp (hclient rfl hfor hk).2 d
        ((h.shape.devLive d).mpr (by rw [hd]; rfl))
      rw [hd, Option.all_some] at hall
      exact of_decide_eq_true hall
  | deviceRemove usbdev =>
    refine ⟨⟨False.elim, False.elim, ?_⟩, False.elim⟩
    rintro ⟨d, dev, -, -, -, k, cl, hk, hmid, -⟩
    have hall := List.all_eq_true.mp hcalm k ((h.shape.cliLive k).mpr (by rw [hk]; rfl))
    rw [hk, Option.all_some] at hall
    exact of_decide_eq_true hall hmid
  | _ => exact ⟨⟨False.elim, False.elim, False.elim⟩, False.elim⟩

theorem calm_run {events : List Event}
    (h : Along (step env) (fun w e => calm env w e = true) World.start events) :
    Along (step env) (fun w e => (¬ Rereleases env w e ∧ ¬ ReadsNull w e ∧ ¬ Relocks w e) ∧
      ¬ ConnectsEarly env w e) World.start events := by
  refine h.imp (fun t e t' ht _ hstep => ?_) (fun t e ht hcalm => calm_spec ht hcalm)
    (inv_start env False False)
  obtain ⟨-, hinv⟩ := (handle_spec ht e False.elim False.elim).after_ok hstep
  exact hinv

theorem calm_delivered :
    Along (step answering) (fun w e => calm answering w e = true) World.start delivered := by
  decide +kernel

theorem run_error {r : Except Fault World} {f : Fault} (h : r.map (fun _ => ()) = .error f) :
    r = .error f := by
  cases r with
  | ok w => cases h
  | error g =>
    cases h
    rfl

theorem run_ok {r : Except Fault World} (h : r.map (fun _ => ()) = .ok ()) : ∃ w, r = .ok w := by
  cases r with
  | ok w => exact ⟨w, rfl⟩
  | error g => cases h

/-! ## Connections -/

/-- **No use of a connection that is gone.**  In a run whose packets neither overflow an in-buffer,
nor open a connection whose client cannot be told, nor are for no connection when the RST cannot be
sent, nothing goes on with a freed connection or a `NULL` one. -/
theorem conns_never_dangle {events : List Event}
    (h : Along (step env) (fun w e => ¬ Dangles env w e ∧ ¬ Strays env w e) World.start events) :
    run env events ≠ .error .connFreed ∧ run env events ≠ .error .connNull := by
  constructor
  · intro hrun
    obtain ⟨t, e, hno, hdangles⟩ := fault_run False h (fun _ _ _ => False.elim) hrun
    exact hno.1 hdangles
  · intro hrun
    obtain ⟨t, e, hno, hstrays⟩ := fault_run False h (fun _ _ _ => False.elim) hrun
    exact hno.2 hstrays

theorem dialogue_calm (w : World) {e : Event} (he : e ∈ dialogue) :
    ¬ Dangles answering w e ∧ ¬ Strays answering w e := by
  simp only [dialogue, List.mem_cons, List.not_mem_nil, or_false] at he
  rcases he with rfl | rfl | rfl | rfl | rfl | rfl
  · exact ⟨id, id⟩
  · constructor <;> rintro ⟨th, payload, hseg, -⟩ <;> cases hseg
  · exact ⟨id, id⟩
  · exact ⟨id, id⟩
  · exact ⟨id, id⟩
  · constructor
    · rintro ⟨th, payload, hseg, hover | hrefused⟩
      · obtain ⟨d, c, conn, -, -, -, -, hflags, -⟩ := hover
        cases hseg
        exact absurd hflags (by decide)
      · obtain ⟨d, c, conn, k, cl, -, -, -, -, -, -, -, -, cl', hsend⟩ := hrefused
        have hmemory := Client.sendPkt_refused hsend
        rw [resultReply_memory] at hmemory
        cases hmemory
    · rintro ⟨th, payload, -, d, -, -, -, hfails⟩
      cases hfails

theorem conns_never_dangle_dialogue :
    run answering dialogue ≠ .error .connFreed ∧ run answering dialogue ≠ .error .connNull :=
  conns_never_dangle (Along.of_mem fun w _ he => dialogue_calm w he)

/-- The RST for a stray segment cannot be sent, and the message about it has the id of the device
of no connection. -/
theorem conns_dangle_stray : run (sample (fun t => t < 2) (fun _ => true) [])
    [.deviceAdd 5 true, .packet 5 0 (.version 1), .packet 5 0 (segment thAck)] =
      .error .connNull :=
  run_error (by decide +kernel)

/-! ## Clients -/

/-- A client that has not been released, or one that has been released once. -/
def Accounted (w : World) (k : Ptr) : Prop :=
  (∃ cl, w.clients k = some cl ∧ k ∈ w.clientList.elems ∧ (w.ledger k).closes = 0 ∧
    (w.ledger k).removals = 0 ∧ (w.ledger k).ibFrees = (if cl.ibNull then 1 else 0) ∧
    (w.ledger k).obFrees = if cl.obNull then 1 else 0) ∨
  (w.clients k = none ∧ k ∉ w.clientList.elems ∧ (w.ledger k).closes = 1 ∧
    (w.ledger k).removals = 1 ∧ (w.ledger k).ibFrees = 1 ∧ (w.ledger k).obFrees = 1)

/-- **No mutex is taken twice**, in a run where no active device is removed while one of its clients
waits for its result. -/
theorem mutexes_once {events : List Event}
    (h : Along (step env) (fun w e => ¬ Relocks w e) World.start events) :
    run env events ≠ .error .relock := by
  intro hrun
  obtain ⟨t, e, hno, hrelocks⟩ := fault_run False h (fun _ _ _ => False.elim) hrun
  exact hno hrelocks

theorem mutexes_once_delivered : run answering delivered ≠ .error .relock :=
  mutexes_once ((calm_run calm_delivered).mono fun _ _ hcalm => hcalm.1.2.2)

/-- The device is unplugged after the SYN/ACK, and before the client has its result. -/
theorem mutex_twice : run (sample (fun _ => true) (fun _ => true)
    [[], [], connectHeader, connectBody]) (dialogue ++ [.deviceRemove 5]) = .error .relock :=
  run_error (by decide +kernel)

/-! ## Collections -/

/-- **No collection is used before `collection_init`**, nor after its device was freed, in a run
where nobody connects to a device that is still `MUXDEV_INIT`. -/
theorem collections_ready {events : List Event}
    (h : Along (step env) (fun w e => ¬ ConnectsEarly env w e) World.start events) :
    run env events ≠ .error .uninitialised ∧ run env events ≠ .error .deviceFreed ∧
      ∀ w, run env events = .ok w → w.early = false := by
  have hgate : ∀ t e, ¬ ConnectsEarly env t e → True → ¬ ConnectsEarly env t e :=
    fun _ _ hno _ => hno
  refine ⟨?_, ?_, ?_⟩
  · intro hrun
    obtain ⟨t, e, -, hshut⟩ := fault_run True h hgate hrun
    exact hshut trivial
  · intro hrun
    obtain ⟨t, e, -, hnever⟩ := fault_run True h hgate hrun
    exact hnever
  · intro w hrun
    have hinv : Inv env (Scope.idle True False) w := inv_run (fun _ => h) False.elim hrun
    exact hinv.linked.early trivial

theorem collections_ready_delivered :
    run answering delivered ≠ .error .uninitialised ∧
      run answering delivered ≠ .error .deviceFreed ∧
      ∀ w, run answering delivered = .ok w → w.early = false :=
  collections_ready ((calm_run calm_delivered).mono fun _ _ hcalm => hcalm.2)

/-- A client connects before the version packet is there, and the memory is not all zeros. -/
theorem collection_not_ready : run (sample (fun _ => true) (fun _ => true)
    [[], connectHeader, connectBody])
      [.deviceAdd 5 false, .accept 9, .client 9 true false, .client 9 true false] =
      .error .uninitialised :=
  run_error (by decide +kernel)

/-! ## Agreement -/

/-- A client has one connection: it is on the list of the device the client asked for, and in the
state `s`. -/
def World.Owns (w : World) (k : Ptr) (cl : Client) (s : MuxConnState) : Prop :=
  ∃ c conn dev, w.conns c = some conn ∧ conn.client = some k ∧ conn.mux.state = s ∧
    w.devices conn.dev = some dev ∧ dev.id = cl.connectDevice ∧ w.Lists conn.dev c ∧
    ∀ c' conn', w.conns c' = some conn' → conn'.client = some k → c' = c

/-- The states of clients and connections, and the order of the bytes on the sockets. -/
structure Agrees (env : Outside) (w : World) : Prop where
  waiting : ∀ k cl, w.clients k = some cl → cl.state = .connecting1 → w.Owns k cl .connecting
  connected : ∀ k cl, w.clients k = some cl → cl.state = .connecting2 ∨ cl.state = .connected →
    w.Owns k cl .connected
  idle : ∀ k cl, w.clients k = some cl → cl.state = .command ∨ cl.state = .listen →
    ∀ c conn, w.conns c = some conn → conn.client ≠ some k
  ordered : ∀ k, (w.ledger k).accepted = true → (w.ledger k).Ordered env

theorem Inv.owns (h : Inv env (Scope.idle True True) w) {k : Ptr} {cl : Client}
    (hk : w.clients k = some cl) (hbusy : Busy cl.state) :
    ∃ s, w.Owns k cl s ∧ ((s = .connecting ∧ cl.state = .connecting1) ∨
      (s = .connected ∧ (cl.state = .connecting2 ∨ cl.state = .connected))) := by
  obtain ⟨c, conn, hc, hclient⟩ := h.linked.served trivial trivial k cl nofun hk hbusy
  have hl := h.linked.listed trivial c conn nofun hc
  obtain ⟨dev, conn', k', cl', hd, hc', hclient', hk', hid, hm⟩ :=
    h.linked.paired conn.dev c nofun hl
  rw [hc] at hc'
  cases hc'
  rw [hclient] at hclient'
  cases hclient'
  rw [hk] at hk'
  cases hk'
  refine ⟨conn.mux.state, ⟨c, conn, dev, hc, hclient, rfl, hd, hid.symm, hl, ?_⟩, ?_⟩
  · intro x cx hx hxk
    exact h.linked.single x c cx conn k hx hc hxk hclient
  · rcases hm with ⟨hm, hs⟩ | ⟨hm, hs, _, _⟩ | ⟨hm, hs⟩
    · exact .inl ⟨hm, hs⟩
    · exact .inr ⟨hm, .inl hs⟩
    · exact .inr ⟨hm, .inr hs⟩

theorem Inv.agrees (h : Inv env (Scope.idle True True) w) : Agrees env w := by
  refine ⟨?_, ?_, ?_, ?_⟩
  · intro k cl hk hs
    obtain ⟨s, howns, ⟨rfl, -⟩ | ⟨-, hs' | hs'⟩⟩ := h.owns hk (.inl hs)
    · exact howns
    · rw [hs] at hs'
      cases hs'
    · rw [hs] at hs'
      cases hs'
  · intro k cl hk hs
    obtain ⟨s, howns, ⟨-, hs'⟩ | ⟨rfl, -⟩⟩ := h.owns hk (.inr hs)
    · rcases hs with hs | hs <;> rw [hs] at hs' <;> cases hs'
    · exact howns
  · intro k cl hk hs c conn hc hclient
    have hbusy := h.linked.busy c conn k cl nofun hc hclient hk
    rcases hs with hs | hs
    · exact not_busy_command (hs ▸ hbusy)
    · exact not_busy_listen (hs ▸ hbusy)
  · intro k hk
    cases hcl : w.clients k with
    | some cl => exact (h.books.live k cl hcl).ordered
    | none => exact (h.books.gone k hk hcl).ordered

/-- **Connections and clients agree**, in a run where `realloc` succeeds and nobody connects to a
device that is still `MUXDEV_INIT`. -/
theorem agreement {events : List Event} (hmemory : ∀ t, env.memory t = true)
    (h : Along (step env) (fun w e => ¬ ConnectsEarly env w e) World.start events)
    (hrun : run env events = .ok w) : Agrees env w := by
  have hinv : Inv env (Scope.idle True True) w := inv_run (fun _ => h) (fun _ => hmemory) hrun
  exact hinv.agrees

theorem agreement_delivered : ∃ w, run answering delivered = .ok w ∧ Agrees answering w := by
  obtain ⟨w, hw⟩ := run_ok (r := run answering delivered) (by decide +kernel)
  exact ⟨w, hw, agreement (fun _ => rfl)
    ((calm_run calm_delivered).mono fun _ _ hcalm => hcalm.2) hw⟩

/-- A client connects before the version packet is there, and the memory is all zeros.  The version
packet empties the collection, so the removal of the device does not find the connection. -/
theorem agreement_early : ¬ ∀ w, run (sample (fun _ => true) (fun _ => true)
    [[], connectHeader, connectBody])
      [.deviceAdd 5 true, .accept 9, .client 9 true false, .client 9 true false,
        .packet 5 0 (.version 1), .deviceRemove 5] = .ok w →
      Agrees (sample (fun _ => true) (fun _ => true) [[], connectHeader, connectBody]) w := by
  intro hall
  have hsees : (run (sample (fun _ => true) (fun _ => true) [[], connectHeader, connectBody])
      [.deviceAdd 5 true, .accept 9, .client 9 true false, .client 9 true false,
        .packet 5 0 (.version 1), .deviceRemove 5]).map
      (fun w => (w.deviceList.elems, (w.clients 1).map Client.state)) =
        .ok ([], some .connecting1) := by
    decide +kernel
  cases hrun : run (sample (fun _ => true) (fun _ => true) [[], connectHeader, connectBody])
      [.deviceAdd 5 true, .accept 9, .client 9 true false, .client 9 true false,
        .packet 5 0 (.version 1), .deviceRemove 5] with
  | error f =>
    rw [hrun] at hsees
    cases hsees
  | ok w =>
    rw [hrun] at hsees
    have hpair : (w.deviceList.elems, (w.clients 1).map Client.state) =
        ([], some .connecting1) := by
      injection hsees
    obtain ⟨hnone, hstate⟩ := Prod.mk.inj hpair
    obtain ⟨cl, hk, hs⟩ := Option.map_eq_some_iff.mp hstate
    obtain ⟨c, conn, dev, -, -, -, hd, -⟩ := (hall w hrun).waiting 1 cl hk hs
    have hinv : Inv _ (Scope.idle False False) w := inv_run False.elim False.elim hrun
    have hmem := (hinv.shape.devLive conn.dev).mpr (by rw [hd]; rfl)
    rw [hnone] at hmem
    cases hmem

/-! ## Ports -/

/-- The segment is handed to the connection at `c`. -/
def deliver (env : Outside) (c : Ptr) (th : Tcphdr) (payload : List UInt8) : Handler Unit := do
  let conn ← getConn c
  let seen := conn.withMux (conn.mux.seen th)
  modify fun w => w.setConn c seen
  match seen.mux.state with
  | .connecting => connectingInput env c seen th
  | .connected => connectedInput env c seen th payload
  | _ => pure ()

theorem deviceTcpInput_delivers {v : Scope} (h : Inv env v w) {d c : Ptr} {dev : Device}
    {th : Tcphdr} (hd : w.devices d = some dev) (hactive : dev.state = .active)
    (hfor : w.connFor d th = some c) (payload : List UInt8) :
    deviceTcpInput env d th payload w = deliver env c th payload w := by
  obtain ⟨dev', slots, hd', hs, -⟩ := (connFor_some hfor).1
  rw [hd] at hd'
  cases hd'
  have hready : dev.ready = true := by
    rw [← Bool.not_eq_false, (h.shape.ready d dev hd).1, hactive]
    nofun
  have hquiet : ({ w with early := w.early || !dev.ready } : World) = w := by
    rw [hready, Bool.not_true, Bool.or_false]
  have hdev : getDev d w = .ok (dev, w) := Meets.eq_ok ((meets_getDev hd).mpr ⟨rfl, rfl⟩)
  have hslots : connectionsOf d w = .ok (slots, w) := by
    refine Meets.eq_ok ?_
    rw [connectionsOf, meets_bind, meets_getDev hd, hs]
    exact ⟨rfl, hquiet⟩
  have hsearch : search World.conns .connFreed (Conn.hasPorts th) slots.elems w =
      .ok (some c, w) := by
    refine Meets.eq_ok ((meets_search (h.conns_live hd hs)).mpr ⟨?_, rfl⟩)
    rw [World.connFor_eq hd hs] at hfor
    exact hfor
  rw [deviceTcpInput, bind_eq_of_ok hdev, if_neg (not_not_intro hactive), bind_eq_of_ok hslots,
    bind_eq_of_ok hsearch]
  rfl

/-- **Ports.**  After any run, the connections on the list of a device have different source ports,
and none has port 0; and where nobody has connected to a device that was still `MUXDEV_INIT`, every
connection there is is on the list of its device.  So a segment has at most one connection, it is
handed to that one, and no other connection is touched. -/
theorem ports_distinct {events : List Event} (hrun : run env events = .ok w) :
    (∀ d c c' conn conn', w.Lists d c → w.Lists d c' → w.conns c = some conn →
      w.conns c' = some conn' → conn.mux.sport = conn'.mux.sport → c = c') ∧
    (∀ d c conn, w.Lists d c → w.conns c = some conn → conn.mux.sport ≠ 0) ∧
    (Along (step env) (fun w e => ¬ ConnectsEarly env w e) World.start events →
      ∀ c conn, w.conns c = some conn → w.Lists conn.dev c) ∧
    (∀ d th c, w.connFor d th = some c ↔
      w.Lists d c ∧ ∃ conn, w.conns c = some conn ∧ conn.hasPorts th = true) ∧
    (∀ d dev th c payload, w.devices d = some dev → dev.state = .active →
      w.connFor d th = some c →
      deviceTcpInput env d th payload w = deliver env c th payload w) ∧
    ∀ usbdev rxSeq th payload w' d,
      step env w (.packet usbdev rxSeq (.tcp th payload)) = .ok w' → w.deviceFor usbdev = some d →
        ∀ x, w.connFor d th ≠ some x → w'.conns x = w.conns x := by
  have h : Inv env (Scope.idle False False) w := inv_run False.elim False.elim hrun
  refine ⟨h.linked.ports, h.linked.portNonzero, ?_, ?_, ?_, ?_⟩
  · intro halong c conn hc
    have hinv : Inv env (Scope.idle True False) w := inv_run (fun _ => halong) False.elim hrun
    exact hinv.linked.listed trivial c conn nofun hc
  · intro d th c
    constructor
    · exact connFor_some
    · rintro ⟨hl, conn, hc, hports⟩
      exact h.connFor_unique hl hc hports
  · intro d dev th c payload hd hactive hfor
    exact deviceTcpInput_delivers h hd hactive hfor payload
  · intro usbdev rxSeq th payload w' d hstep hd
    have hcalls : Calls env (Scope.idle False False) fun _ => True :=
      ⟨False.elim, trivial, fun _ => trivial⟩
    have hspec : Meets (deviceDataInput env usbdev rxSeq (.tcp th payload)) w _ fun _ => True :=
      deviceDataInput_spec h free_idle hcalls (fun _ _ _ _ => trivial) (fun _ _ _ _ => trivial)
        fun _ _ _ _ => trivial
    obtain ⟨-, -, haside⟩ := hspec.after_ok hstep
    exact haside th payload.val d rfl hd

theorem ports_distinct_dialogue : ∃ w,
    run (sample (fun _ => true) (fun _ => true) [[], [], connectHeader, connectBody]) dialogue =
        .ok w ∧
      ∀ d c conn, w.Lists d c → w.conns c = some conn → conn.mux.sport ≠ 0 := by
  obtain ⟨w, hw⟩ := run_ok (r := run (sample (fun _ => true) (fun _ => true)
    [[], [], connectHeader, connectBody]) dialogue) (by decide +kernel)
  exact ⟨w, hw, (ports_distinct hw).2.1⟩

end IDeviceStack.Usbmuxd.Daemon
