/-
# `Usbmuxd.Requests` — what a client says

The messages of a client, and the readiness of its socket.  A client that waits for a
command gets an answer.  One that listens or waits for a connection must not say
anything: the answer is `BADCOMMAND`, and the client is closed while
`process_recv` still has it in its hands.

**Proved here.**  `clientProcess_spec`.
-/
import IDeviceStack.Usbmuxd.Opening

namespace IDeviceStack.Usbmuxd.Daemon

open Lib Function Option

variable {env : Outside} {v : Scope} {w w' : World} {E : Fault → Prop}
  {c d k : Ptr} {conn : Conn} {dev : Device} {slots : Collection} {cl : Client}

/-! ## Answers -/

theorem answer_spec {reply : Handler Bool}
    (h : Meets reply w (fun _ w' => Answered env v k cl w w') E) :
    Meets (answer reply) w (fun _ w' => Stays env v k w') E := by
  rw [answer, meets_bind]
  exact h.post fun _ _ ha => ha.stays

theorem sendResult_answer (h : Inv env v w) (hk : w.clients k = some cl) (hs : Answerable cl.state)
    (hE : E .overrun) (tag result : Nat) :
    Meets (answer (sendResult env k tag result)) w (fun _ w' => Stays env v k w') E :=
  answer_spec ((sendResult_spec h hk hs hE tag result).post fun _ _ hq => hq.answered)

theorem sendPlistPkt_answer (h : Inv env v w) (hk : w.clients k = some cl)
    (hs : Answerable cl.state) (hE : E .overrun) (tag : Nat) (notice : Notice) :
    Meets (answer (sendPlistPkt env k tag notice)) w (fun _ w' => Stays env v k w') E :=
  answer_spec (sendPlistPkt_spec h hk hs hE tag notice)

theorem deviceGetList_spec (h : Inv env v w) {Q : List (Nat × Nat) → World → Prop}
    (hQ : ∀ infos, Q infos w) : Meets deviceGetList w Q E := by
  have hread : ∀ q a (R : Device → World → Prop), w.devices q = some a →
      (Meets (getDev q) w R E ↔ R (id a) w) := fun q a R hq => meets_getDev hq
  rw [deviceGetList, meets_bind, meets_get, meets_bind, meets_mapM hread h.devices_live]
  exact hQ _

/-! ## Listening -/

theorem Inv.turn (h : Inv env v w) (hconn : v.conn = none) (hk : w.clients k = some cl)
    (hs : cl.state = .command) {s : ClientState} (hs' : s = .command ∨ s = .listen) :
    Inv env v (w.setClient k { cl with state := s }) := by
  have hidle : ¬ Busy cl.state := by
    rw [hs]
    exact not_busy_command
  have hidle' : ¬ Busy s := by
    rcases hs' with rfl | rfl
    · exact not_busy_command
    · exact not_busy_listen
  have hnone : ∀ x cx, w.conns x = some cx → cx.client ≠ some k := by
    intro x cx hcx hclient
    refine hidle (h.linked.busy x cx k cl ?_ hcx hclient hk)
    rw [hconn]
    exact some_ne_none x
  have hok : ClientOk env { cl with state := s } (w.ledger k) :=
    (h.books.live k cl hk).moved (.inl hs) (hs'.imp_right .inl) rfl rfl rfl
  have hdevice : ({ cl with state := s } : Client).connectDevice = cl.connectDevice := rfl
  have hset : Inv env v ((w.setClient k { cl with state := s }).note k id) := by
    refine h.setClient hk hdevice (fun hb => absurd hb hidle') ?_ ?_ ?_ id hok
    · rintro ⟨x, cx, -, hcx, hclient⟩
      exact absurd hclient (hnone x cx hcx)
    · intro x cx _ hcx hclient
      exact absurd hclient (hnone x cx hcx)
    · intro _ hdead
      have hdead' : s = .dead := hdead
      rcases hs' with rfl | rfl
      · cases hdead'
      · cases hdead'
  rwa [note_id] at hset

theorem announceAll_spec (hE : E .overrun) (h : Inv env v w) (hk : w.clients k = some cl)
    (hs : cl.state = .listen) (infos : List (Nat × Nat)) :
    Meets (announceAll env k infos) w (fun _ w' => Stays env v k w') E := by
  induction infos generalizing w cl with
  | nil => exact ⟨h, by rw [hk]; rfl⟩
  | cons info infos ih =>
    rw [announceAll]
    refine (notifyDeviceAdd_spec h hk (.inr (.inl hs)) hE info.1 info.2).bind ?_
    rintro sent w1 ⟨cl1, hk1, hr, h1, -⟩
    cases sent with
    | true =>
      rw [if_pos rfl]
      exact ih h1 hk1 (hr.state.trans hs)
    | false => exact ⟨h1, by rw [hk1]; rfl⟩

/-- **`start_listen`.** -/
theorem startListen_spec (hE : E .overrun) (h : Inv env v w) (hconn : v.conn = none)
    (hk : w.clients k = some cl) (hs : cl.state = .command) :
    Meets (startListen env k) w (fun _ w' => Stays env v k w') E := by
  have hturn := h.turn hconn hk hs (s := .listen) (.inr rfl)
  rw [startListen, meets_bind, meets_getClient hk, meets_bind, meets_modify, meets_bind]
  refine deviceGetList_spec hturn fun infos => ?_
  exact announceAll_spec hE hturn (update_self _ _ _) rfl infos

theorem listenCommand_spec (hE : E .overrun) (h : Inv env v w) (hconn : v.conn = none)
    (hk : w.clients k = some cl) (hs : cl.state = .command) (tag : Nat) :
    Meets (listenCommand env k tag) w (fun _ w' => Stays env v k w') E := by
  rw [listenCommand]
  refine (sendResult_spec h hk (.inl hs) hE tag 0).bind ?_
  intro sent w1 hq
  cases sent with
  | true =>
    obtain ⟨cl1, hk1, hr, h1, -⟩ := hq.answered
    rw [if_pos rfl]
    exact startListen_spec hE h1 hconn hk1 (hr.state.trans hs)
  | false => exact hq.answered.stays

/-! ## Commands -/

/-- The `MESSAGE_PLIST` in `ib_buf`. -/
def plistOf (env : Outside) (buf : List UInt8) : PlistRequest :=
  env.plistRequest ((buf.drop sizeofUsbmuxdHeader).take (hdrLength buf - sizeofUsbmuxdHeader))

def PlistRequest.device : PlistRequest → Option Nat
  | .connect (some id) (some _) => some id
  | _ => none

/-- The device that a command asks to be connected to. -/
def connectTarget (env : Outside) (buf : List UInt8) : Option Nat :=
  if le32At buf 4 ≠ 0 ∧ le32At buf 4 ≠ 1 then none
  else if le32At buf 8 = messagePlist then (plistOf env buf).device
  else if le32At buf 8 = messageConnect then some (le32At buf 16)
  else none

/-- No device with the id of a connect request is still `MUXDEV_INIT`. -/
def Open (w : World) (target : Option Nat) : Prop :=
  ∀ id, target = some id → ∀ d dev, w.devices d = some dev → dev.id = id → dev.state ≠ .init

theorem plistCommand_spec (h : Inv env v w) (hconn : v.conn = none) (hlock : v.deviceLock = false)
    (hcalls : Calls env v E) (hk : w.clients k = some cl) (hs : cl.state = .command) (tag : Nat)
    (req : PlistRequest) (hg : v.gate → Open w req.device) :
    Meets (plistCommand env k tag req) w (fun _ w' => Stays env v k w') E := by
  have hover := hcalls.overrun
  have hresult : ∀ result, Meets (answer (sendResult env k tag result)) w
      (fun _ w' => Stays env v k w') E := sendResult_answer h hk (.inl hs) hover tag
  have hplist : ∀ notice, Meets (answer (sendPlistPkt env k tag notice)) w
      (fun _ w' => Stays env v k w') E := sendPlistPkt_answer h hk (.inl hs) hover tag
  cases req with
  | unreadable => exact ⟨h, by rw [hk]; rfl⟩
  | listen => exact listenCommand_spec hover h hconn hk hs tag
  | connect id port =>
    cases id with
    | none => exact hresult _
    | some id =>
      cases port with
      | none => exact hresult _
      | some port =>
        refine connectCommand_spec h hconn hlock hcalls hk hs ?_
        exact fun hgate => hg hgate id rfl
  | listDevices =>
    rw [plistCommand, meets_bind]
    exact deviceGetList_spec h fun infos => hplist _
  | readBuid => exact hplist _
  | readPairRecord id =>
    cases id with
    | none => exact hresult _
    | some id =>
      rw [plistCommand, meets_bind, meets_get]
      split
      · exact hplist _
      · exact hresult _
  | savePairRecord id data =>
    cases id with
    | none => exact hresult _
    | some id =>
      cases data with
      | none => exact hresult _
      | some data =>
        rw [plistCommand, meets_bind, meets_get]
        exact hresult _
  | deletePairRecord id =>
    cases id with
    | none => exact hresult _
    | some id =>
      rw [plistCommand, meets_bind, meets_get]
      exact hresult _
  | unexpected => exact hresult _

/-- **`client_command`** for a client that waits for one. -/
theorem runCommand_spec (h : Inv env v w) (hconn : v.conn = none) (hlock : v.deviceLock = false)
    (hcalls : Calls env v E) (hk : w.clients k = some cl) (hs : cl.state = .command)
    {buf : List UInt8} (hg : v.gate → Open w (connectTarget env buf)) :
    Meets (runCommand env k buf) w (fun _ w' => Stays env v k w') E := by
  rw [runCommand]
  rw [connectTarget] at hg
  by_cases hversion : le32At buf 4 ≠ 0 ∧ le32At buf 4 ≠ 1
  · rw [if_pos hversion]
    exact sendResult_answer h hk (.inl hs) hcalls.overrun _ _
  · rw [if_neg hversion] at hg ⊢
    by_cases hplist : le32At buf 8 = messagePlist
    · rw [if_pos hplist] at hg ⊢
      have hok := h.books.live k cl hk
      have hinv := h.touchClient hk (show ({ cl with protoVersion := 1 } : Client).connectDevice =
        cl.connectDevice from rfl) rfl id { hok with }
      rw [note_id] at hinv
      rw [meets_bind, meets_getClient hk, meets_bind, meets_modify]
      exact plistCommand_spec hinv hconn hlock hcalls (update_self _ _ _) hs _ _ hg
    · rw [if_neg hplist] at hg ⊢
      by_cases hlisten : le32At buf 8 = messageListen
      · rw [if_pos hlisten]
        exact listenCommand_spec hcalls.overrun h hconn hk hs _
      · rw [if_neg hlisten]
        by_cases hconnect : le32At buf 8 = messageConnect
        · rw [if_pos hconnect] at hg ⊢
          refine connectCommand_spec h hconn hlock hcalls hk hs ?_
          exact fun hgate => hg hgate _ rfl
        · rw [if_neg hconnect]
          exact sendResult_answer h hk (.inl hs) hcalls.overrun _ _

/-! ## Closing -/

theorem Scope.withoutClient (hclient : v.client = none) : { v with client := none } = v := by
  cases v
  cases hclient
  rfl

theorem clientClose_idle (h : Inv env v w) (hclient : v.client = none)
    (hclock : v.clientLock = false) (hk : w.clients k = some cl) (hidle : ¬ Busy cl.state) :
    Meets (clientClose env k) w (fun _ w' => Inv env v w') E := by
  have hif : ¬ (cl.state = .connecting1 ∨ cl.state = .connecting2) := by
    rintro (hs | hs)
    · exact hidle (.inl hs)
    · exact hidle (.inr (.inl hs))
  rw [clientClose, clientCloseBy, meets_bind, meets_getClient hk, if_neg hif]
  refine (release_inv h hclock hk ?_ ?_).post ?_
  · intro d x cx hx _ hcx hcl
    exact hidle (h.linked.busy x cx k cl hx hcx hcl hk)
  · intro x hx
    rw [hclient] at hx
    cases hx
  · rintro _ w' ⟨-, h'⟩
    rw [Scope.withoutClient hclient] at h'
    exact h'

theorem exists_owned (h : Inv env v w) (k : Ptr) : ∃ owned : Option Ptr,
    (∀ x cx, some x ≠ owned → w.conns x = some cx → cx.client ≠ some k) ∧
      ∀ c, owned = some c → ∃ conn, w.conns c = some conn ∧ conn.client = some k := by
  by_cases hown : ∃ c conn, w.conns c = some conn ∧ conn.client = some k
  · obtain ⟨c, conn, hc, hclient⟩ := hown
    refine ⟨some c, ?_, ?_⟩
    · intro x cx hx hcx hk
      exact hx (congrArg some (h.linked.single x c cx conn k hcx hc hk hclient))
    · intro x hx
      cases hx
      exact ⟨conn, hc, hclient⟩
  · refine ⟨none, ?_, nofun⟩
    intro x cx _ hcx hk
    exact hown ⟨x, cx, hcx, hk⟩

/-- `client_close` for a client that waits for a connection, or for its result.  In the second case
`connection_teardown` has closed the client when `client_close` goes on with it. -/
theorem clientClose_connecting (h : Inv env v w) (hconn : v.conn = none) (hclient : v.client = none)
    (hlock : v.deviceLock = false) (hclock : v.clientLock = false) (hcalls : Calls env v E)
    (hk : w.clients k = some cl) (hs : cl.state = .connecting1 ∨ cl.state = .connecting2)
    (hfreed : cl.state = .connecting2 → E .clientFreed) :
    Meets (clientClose env k) w (fun _ w' => Inv env v w') E := by
  have hbusy : Busy cl.state := hs.imp_right .inl
  obtain ⟨owned, halone, howned⟩ := exists_owned h k
  have h1 := (h.take hconn hclient owned (some k)).kill rfl hk hs halone
  rw [clientClose, clientCloseBy, meets_bind, meets_getClient hk, if_pos hs, meets_bind, meets_modify,
    meets_bind, deviceAbortConnect]
  refine (getMuxConnection_spec h1 hlock cl.connectDevice k ?_ hcalls.uninitialised).bind ?_
  · intro hgate d dev hd hid
    exact h.linked.gated hgate k cl d dev hk hbusy hd hid
  rintro r w2 ⟨hq, h2, hfinds⟩
  have hk2 : w2.clients k = some { cl with state := .dead } := by
    rw [hq.clients]
    exact update_self _ _ _
  have hconns2 : w2.conns = w.conns := hq.conns
  have hlists2 : ∀ d x, w2.Lists d x ↔ w.Lists d x := fun d x => hq.lists
  have hnone : ∀ x : Ptr, some x ≠ v.conn := by
    intro x
    rw [hconn]
    exact some_ne_none x
  -- what is listed and has this client is found
  have hlisted : ∀ d x cx, w.Lists d x → w.conns x = some cx → cx.client = some k →
      ∃ dev, FoundBy (w.setClient k { cl with state := .dead }) cl.connectDevice k x d dev cx ∧
        Matched cx.mux cl.state := by
    intro d x cx hl hcx hxk
    obtain ⟨dev, cx', k', cl', hd, hcx', hk', hcl', hid, hm⟩ := h.linked.paired d x (hnone x) hl
    rw [hcx] at hcx'
    cases hcx'
    rw [hxk] at hk'
    cases hk'
    rw [hk] at hcl'
    cases hcl'
    exact ⟨dev, ⟨hd, hid.symm, hl, hcx, hxk⟩, hm⟩
  cases r with
  | none =>
    have hno : ∀ d x cx, w.Lists d x → w.conns x = some cx → cx.client ≠ some k := by
      intro d x cx hl hcx hxk
      obtain ⟨dev, hf, -⟩ := hlisted d x cx hl hcx hxk
      exact hfinds d dev x cx hf
    show Meets (pure ()) w2 _ E
    rw [meets_pure]
    refine (release_inv h2 hclock hk2 ?_ ?_).post ?_
    · intro d x cx _ hl hcx
      rw [hconns2] at hcx
      exact hno d x cx ((hlists2 d x).mp hl) hcx
    · intro x hx
      exact (some.inj hx).symm
    · rintro _ w3 ⟨hq3, h3⟩
      have hconns3 : w3.conns = w.conns := hq3.conns.trans hconns2
      have hput := h3.putConn ?_ ?_ ?_
      · have hscope : ({ { v with conn := owned, client := none } with conn := none } : Scope) = v :=
          (congrArg (fun s : Scope => { s with conn := none })
            (show ({ v with conn := owned, client := none } : Scope) =
              { v with conn := owned } from by rw [← hclient])).trans (Scope.withoutConn hconn)
        exact hscope ▸ hput
      · intro d c hc hl
        obtain ⟨cx, hcx, hxk⟩ := howned c hc
        have hl2 : w2.Lists d c := hq3.lists.mp hl
        exact absurd hxk (hno d c cx ((hlists2 d c).mp hl2) hcx)
      · intro c conn k' cl' hc hconn' hk' hcl'
        obtain ⟨cx, hcx, hxk⟩ := howned c hc
        rw [hconns3, hcx] at hconn'
        cases hconn'
        rw [hxk] at hk'
        cases hk'
        rw [hq3.clients, dropClient_clients, if_pos rfl] at hcl'
        cases hcl'
      · intro hgate c conn hc hconn'
        obtain ⟨cx, hcx, hxk⟩ := howned c hc
        have hl := h.linked.listed hgate c cx (hnone c) hcx
        exact absurd hxk (hno cx.dev c cx hl hcx)
  | some c =>
    obtain ⟨d, dev, conn, hf⟩ := hfinds
    have hc : w.conns c = some conn := hf.connAt
    have hl : w.Lists d c := hf.lists
    obtain ⟨dev', hf', hm⟩ := hlisted d c conn hl hc hf.client
    obtain ⟨conn', hc', hdev⟩ := h.shape.connLive d c hl
    rw [hc] at hc'
    cases hc'
    obtain ⟨dev'', slots, hd, hslots, hmem⟩ := hl
    have hsame : dev' = dev'' := some.inj (hf'.devAt.symm.trans hd)
    subst hsame
    have howner : owned = some c := by
      by_contra hne
      exact halone c conn (fun hx => hne hx.symm) hc hf.client
    subst howner
    have hholds : Holds env { v with conn := some c, client := some k } w2 c k conn dev' slots
        { cl with state := .dead } :=
      { inv := h2, connHeld := rfl, clientHeld := rfl, unlocked := hclock
        connAt := by rw [hconns2]; exact hc
        client := hf.client
        devAt := by rw [hq.devices, hdev]; exact hd
        slotsAt := hslots, slot := hmem, clientAt := hk2
        gate := fun hgate => h.linked.gated hgate k cl d dev' hk hbusy hd hf'.hasId }
    show Meets (teardownAt env 2 c) w2 _ E
    rcases hs with hs | hs
    · have hshut : conn.mux.state = .connecting := by
        rcases hm with ⟨hm, _⟩ | ⟨_, hm, _, _⟩ | ⟨_, hm⟩
        · exact hm
        · rw [hs] at hm
          cases hm
        · rw [hs] at hm
          cases hm
      refine (hholds.teardownDeserted hshut rfl hcalls.uninitialised 1).post ?_
      rintro _ w3 ⟨h3, hclients3, hconns3, hlists3⟩
      have hk3 : w3.clients k = some { cl with state := .dead } := by
        rw [hclients3]
        exact hk2
      refine (release_inv h3 hclock hk3 ?_ ?_).post ?_
      · intro d' x cx _ _ hcx hxk
        rw [hconns3, hconns2] at hcx
        by_cases hxc : x = c
        · rw [hxc, update_self] at hcx
          cases hcx
        · rw [update_of_ne hxc] at hcx
          exact hxc (h.linked.single x c cx conn k hcx hc hxk hf.client)
      · intro x hx
        exact (some.inj hx).symm
      · rintro _ w4 ⟨-, h4⟩
        have hscope : ({ ({ v with conn := some c, client := some k } : Scope) with
            conn := none, client := none } : Scope) = v := Scope.bare_eq hconn hclient
        exact hscope ▸ h4
    · have hopen : conn.mux.state = .connected := by
        rcases hm with ⟨_, hm⟩ | ⟨hm, _⟩ | ⟨hm, _⟩
        · rw [hs] at hm
          cases hm
        · exact hm
        · exact hm
      refine (hholds.teardownDoomed hopen rfl hf'.hasId.symm hcalls.uninitialised 0).post ?_
      intro _ w3 hgone
      rw [release, meets_bind, meets_getClient_freed hgone]
      exact hfreed hs

/-! ## A message -/

/-- The handler has nothing in its hands, and no mutex. -/
structure Free (v : Scope) : Prop where
  conn : v.conn = none
  client : v.client = none
  deviceLock : v.deviceLock = false
  clientLock : v.clientLock = false
  retiring : v.retiring = none

theorem clientClose_spec (h : Inv env v w) (hv : Free v) (hcalls : Calls env v E)
    (hk : w.clients k = some cl) (hs : Answerable cl.state ∨ cl.state = .connecting2)
    (hfreed : cl.state = .connecting2 → E .clientFreed) :
    Meets (clientClose env k) w (fun _ w' => Inv env v w') E := by
  by_cases hif : cl.state = .connecting1 ∨ cl.state = .connecting2
  · exact clientClose_connecting h hv.conn hv.client hv.deviceLock hv.clientLock hcalls hk hif hfreed
  · refine clientClose_idle h hv.client hv.clientLock hk ?_
    rintro (hs' | hs' | hs')
    · exact hif (.inl hs')
    · exact hif (.inr hs')
    · rcases hs with (hs | hs | hs) | hs <;> rw [hs] at hs' <;> cases hs'

/-- The answer to a message out of turn is queued. -/
def Rebuked (env : Outside) (cl : Client) (buf : List UInt8) (t : Nat) : Prop :=
  ∃ cl', cl.sendPkt (resultReply env cl.protoVersion (le32At buf 12) resultBadcommand
    (env.memory t)) = some (cl', true)

/-- **`client_command`.**  The client is there in the end, unless it spoke out of turn. -/
theorem clientCommand_spec (h : Inv env v w) (hv : Free v) (hcalls : Calls env v E)
    (hk : w.clients k = some cl) (hs : Answerable cl.state) {buf : List UInt8}
    (hg : cl.state = .command → v.gate → Open w (connectTarget env buf))
    (hturn : cl.state ≠ .command → Rebuked env cl buf w.tick → E .clientFreed) :
    Meets (clientCommand env k buf) w
      (fun _ w' => Inv env v w' ∧ ((w'.clients k).isSome = true ∨ E .clientFreed)) E := by
  rw [clientCommand, meets_bind, meets_getClient hk]
  by_cases hcommand : cl.state = .command
  · rw [if_neg (not_not_intro hcommand)]
    refine (runCommand_spec h hv.conn hv.deviceLock hcalls hk hcommand (hg hcommand)).post ?_
    exact fun _ _ hst => ⟨hst.1, .inl hst.2⟩
  · rw [if_pos hcommand]
    refine (sendResult_spec h hk hs hcalls.overrun _ _).bind ?_
    rintro sent w1 ⟨cl1, hsend, hk1, hr, h1, -, -⟩
    cases sent with
    | true =>
      rw [if_pos rfl]
      refine (clientClose_spec h1 hv hcalls hk1 (.inl (hr.answerable hs)) ?_).post ?_
      · intro hs1
        rcases hr.answerable hs with hs' | hs' | hs' <;> rw [hs'] at hs1 <;> cases hs1
      · exact fun _ _ hw' => ⟨hw', .inr (hturn hcommand ⟨cl1, hsend⟩)⟩
    | false =>
      rw [if_neg Bool.false_ne_true]
      refine ⟨h1, .inl ?_⟩
      rw [hk1]
      rfl

theorem Inv.setIb (h : Inv env v w) (hk : w.clients k = some cl) (ib : List UInt8) :
    Inv env v (w.setClient k { cl with ib := ib }) := by
  have hdevice : ({ cl with ib := ib } : Client).connectDevice = cl.connectDevice := rfl
  have hok := h.books.live k cl hk
  have hset := h.touchClient hk hdevice rfl id { hok with }
  rwa [note_id] at hset

/-- What `process_recv` makes of the bytes on the socket. -/
def World.intake (env : Outside) (w : World) (cl : Client) : Intake :=
  takeMessage (fun len => (env.clientRecv w.tick len).map Subtype.val) cl.ib

/-- **`process_recv`.** -/
theorem processRecv_spec (h : Inv env v w) (hv : Free v) (hcalls : Calls env v E)
    (hk : w.clients k = some cl) (hs : cl.state ≠ .connected)
    (hg : ∀ ib, cl.state = .command → w.intake env cl = .message ib → v.gate →
      Open w (connectTarget env (ib ++ env.stale w.tick)))
    (hturn : ∀ ib, cl.state = .listen ∨ cl.state = .connecting1 → w.intake env cl = .message ib →
      Rebuked env { cl with ib := ib } (ib ++ env.stale w.tick) (w.tick + 1) → E .clientFreed)
    (hmid : cl.state = .connecting2 → cl.ib.length < sizeofUsbmuxdHeader → E .clientFreed)
    (hnull : cl.state = .connecting2 → ¬ cl.ib.length < sizeofUsbmuxdHeader → E .bufferNull) :
    Meets (processRecv env k) w (fun _ w' => Inv env v w') E := by
  have hok := h.books.live k cl hk
  have hawake : cl.state ≠ .dead := by
    refine h.linked.awake k cl ?_ hk
    rw [hv.client]
    exact some_ne_none k
  rw [processRecv, meets_bind, meets_getClient hk]
  by_cases hnil : cl.ibNull = true
  · have h2 : cl.state = .connecting2 := by
      rcases hok.ibNull hnil with h2 | hc | hd
      · exact h2
      · exact absurd hc hs
      · exact absurd hd hawake
    rw [if_pos hnil, recvNull]
    by_cases hshort : cl.ib.length < sizeofUsbmuxdHeader
    · rw [if_pos hshort]
      exact clientClose_spec h hv hcalls hk (.inr h2) fun h2 => hmid h2 hshort
    · rw [if_neg hshort]
      exact hnull h2 hshort
  · have hanswer : Answerable cl.state := by
      cases hstate : cl.state with
      | command => exact .inl rfl
      | listen => exact .inr (.inl rfl)
      | connecting1 => exact .inr (.inr rfl)
      | connecting2 => exact absurd (hok.muted hstate) hnil
      | connected => exact absurd hstate hs
      | dead => exact absurd hstate hawake
    have hka : w.asked.clients k = some cl := hk
    have hintake : takeMessage (fun len => (env.clientRecv w.tick len).map Subtype.val) cl.ib =
        w.intake env cl := rfl
    rw [if_neg hnil, meets_bind, meets_get, meets_bind, meets_modify, hintake]
    cases hin : w.intake env cl with
    | closed =>
      refine clientClose_spec h.asked hv hcalls hka (.inl hanswer) ?_
      intro h2
      rcases hanswer with hs' | hs' | hs' <;> rw [hs'] at h2 <;> cases h2
    | waiting ib => exact h.asked.setIb hka ib
    | message ib =>
      have h1 := h.asked.setIb hka ib
      show Meets (modify _ >>= _) w.asked _ E
      rw [meets_bind, meets_modify]
      refine (clientCommand_spec h1 hv hcalls (update_self _ _ _) hanswer ?_ ?_).bind ?_
      · exact fun hcommand => hg ib hcommand hin
      · intro hother hrebuke
        refine hturn ib ?_ hin hrebuke
        rcases hanswer with hs' | hs'
        · exact absurd hs' hother
        · exact hs'
      · rintro _ w2 ⟨h₂, hthere⟩
        cases hk2 : w2.clients k with
        | none =>
          rw [meets_bind, meets_getClient_freed hk2]
          rw [hk2] at hthere
          exact hthere.resolve_left Bool.false_ne_true
        | some cl2 =>
          rw [meets_bind, meets_getClient hk2, meets_modify]
          exact h₂.setIb hk2 []

/-! ## Replies go out -/

theorem Client.processSend_state {cl' : Client} {send : Nat → Option Nat} {bytes : List UInt8}
    (h : cl.processSend send = some (cl', bytes)) :
    cl'.connectDevice = cl.connectDevice ∧
      (cl'.state = cl.state ∨ cl.state = .connecting2 ∧ cl'.state = .connected) := by
  rw [Client.processSend] at h
  split at h
  · cases h
    exact ⟨rfl, .inl rfl⟩
  · split at h
    · cases h
    · split at h
      · cases h
      · split at h
        · cases h
          rw [Client.drained]
          split
          · next h2 => exact ⟨rfl, .inr ⟨h2, rfl⟩⟩
          · exact ⟨rfl, .inl rfl⟩
        · cases h
          exact ⟨rfl, .inl rfl⟩

theorem ClientOk.wroteReply {l : Ledger} {bytes left : List UInt8} (h : ClientOk env cl l)
    (hs : cl.state ≠ .connected) (hbytes : cl.ob = bytes ++ left) {cl' : Client}
    (hib : cl'.ibNull = cl.ibNull) (hob : cl'.ob = left) {drained : Bool}
    (hnull : cl'.obNull = (cl.obNull || drained))
    (hstate : (drained = false ∧ cl'.state = cl.state) ∨
      (drained = true ∧ cl.obNull = false ∧ left = [] ∧ cl.state = .connecting2 ∧
        cl'.state = .connected)) :
    ClientOk env cl' (l.wrote bytes drained) := by
  have hobNull : cl.obNull = false := by
    rw [← Bool.not_eq_true]
    intro hn
    exact hs (h.obNull hn)
  have hraw : ∀ x ∈ l.wire, x.isRaw = false := h.raw.resolve_left hs
  have hraw' : ∀ x ∈ (l.wrote bytes drained).wire, x.isRaw = false := by
    intro x hx
    rcases List.mem_append.mp hx with hx | hx
    · exact hraw x hx
    · rw [List.mem_singleton.mp hx]
      rfl
  have hsent : replyBytes (l.wrote bytes drained).wire ++ cl'.ob = l.queued.flatten := by
    show replyBytes (l.wire ++ [Wire.reply bytes]) ++ cl'.ob = _
    rw [replyBytes_append, hob, ← h.sent, hbytes]
    show (replyBytes l.wire ++ (bytes ++ [])) ++ left = _
    rw [List.append_nil, List.append_assoc]
  rw [hobNull, Bool.false_or] at hnull
  rcases hstate with ⟨rfl, hsame⟩ | ⟨rfl, -, hleft, h2, hopen⟩
  · refine { h with
      ibFrees := ?_, obFrees := ?_, ibNull := ?_, obNull := ?_, muted := ?_, sent := hsent,
      raw := .inr hraw', drained := ?_, result := ?_, ordered := Ledger.Ordered.of_no_raw hraw' }
    · rw [hib]
      exact h.ibFrees
    · show l.obFrees = _
      rw [hnull, h.obFrees, hobNull]
    · rw [hib, hsame]
      exact h.ibNull
    · rw [hnull]
      nofun
    · rw [hib, hsame]
      exact h.muted
    · rw [hsame]
      exact fun hc => absurd hc hs
    · rw [hsame]
      exact h.result
  · have hold : l.obFrees = 0 := by
      rw [h.obFrees, hobNull]
      rfl
    refine { h with
      ibFrees := ?_, obFrees := ?_, ibNull := ?_, obNull := fun _ => hopen, muted := ?_,
      sent := hsent, raw := .inl hopen, drained := fun _ => hob.trans hleft,
      result := fun _ => h.result (.inl h2), ordered := Ledger.Ordered.of_no_raw hraw' }
    · rw [hib]
      exact h.ibFrees
    · rw [hnull]
      show l.obFrees + 1 = 1
      rw [hold]
    · exact fun _ => .inr (.inl hopen)
    · rw [hopen]
      nofun

theorem ClientOk.processSend {l : Ledger} {cl' : Client} {send : Nat → Option Nat}
    {bytes : List UInt8} (h : ClientOk env cl l) (hs : cl.state ≠ .connected)
    (hsend : cl.processSend send = some (cl', bytes)) :
    ClientOk env cl' (l.wrote bytes (!cl.obNull && cl'.obNull)) := by
  have hobNull : cl.obNull = false := by
    rw [← Bool.not_eq_true]
    intro hn
    exact hs (h.obNull hn)
  rw [hobNull, Bool.not_false, Bool.true_and]
  rw [Client.processSend] at hsend
  split at hsend
  · next hnil =>
      cases hsend
      refine h.wroteReply hs (show cl.ob = [] ++ [] from hnil) ?_ ?_ ?_ (.inl ⟨hobNull, ?_⟩)
      · rfl
      · exact hnil
      · rw [hobNull, Bool.false_or]
      · rfl
  · split at hsend
    · cases hsend
    · next res _ =>
        split at hsend
        · cases hsend
        · split at hsend
          · cases hsend
            rw [Client.drained]
            split
            · next h2 =>
                refine h.wroteReply hs (List.append_nil _).symm ?_ ?_ ?_
                  (.inr ⟨?_, hobNull, rfl, h2, ?_⟩)
                · rfl
                · rfl
                · rw [hobNull, Bool.false_or]
                · rfl
                · rfl
            · refine h.wroteReply hs (List.append_nil _).symm ?_ ?_ ?_ (.inl ⟨hobNull, ?_⟩)
              · rfl
              · rfl
              · rw [hobNull, Bool.false_or]
              · rfl
          · cases hsend
            refine h.wroteReply hs (List.take_append_drop res cl.ob).symm ?_ ?_ ?_
              (.inl ⟨hobNull, ?_⟩)
            · rfl
            · rfl
            · rw [hobNull, Bool.false_or]
            · rfl

theorem Matched.opens {m : MuxConnection} (h : Matched m .connecting2) : Matched m .connected := by
  rcases h with ⟨_, hs⟩ | ⟨hm, _, _, _⟩ | ⟨_, hs⟩
  · cases hs
  · exact .inr (.inr ⟨hm, rfl⟩)
  · cases hs

/-- What `process_send` makes of the socket. -/
def World.drain (env : Outside) (w : World) (cl : Client) : Option (Client × List UInt8) :=
  cl.processSend (fun len => (env.clientSend w.tick len).map Fin.val)

/-- **`process_send`.** -/
theorem processSend_spec (h : Inv env v w) (hv : Free v) (hcalls : Calls env v E)
    (hk : w.clients k = some cl) (hs : cl.state ≠ .connected)
    (hmid : cl.state = .connecting2 → w.drain env cl = none → E .clientFreed) :
    Meets (processSend env k) w (fun _ w' => Inv env v w') E := by
  have hawake : cl.state ≠ .dead := by
    refine h.linked.awake k cl ?_ hk
    rw [hv.client]
    exact some_ne_none k
  have hka : w.asked.clients k = some cl := hk
  have hdrain : cl.processSend (fun len => (env.clientSend w.tick len).map Fin.val) =
      w.drain env cl := rfl
  rw [processSend, meets_bind, meets_getClient hk, meets_bind, meets_get, meets_bind, meets_modify,
    hdrain]
  cases hsend : w.drain env cl with
  | none =>
    refine clientClose_spec h.asked hv hcalls hka ?_ fun h2 => hmid h2 hsend
    cases hstate : cl.state with
    | command => exact .inl (.inl rfl)
    | listen => exact .inl (.inr (.inl rfl))
    | connecting1 => exact .inl (.inr (.inr rfl))
    | connecting2 => exact .inr rfl
    | connected => exact absurd hstate hs
    | dead => exact absurd hstate hawake
  | some sent =>
    obtain ⟨cl', bytes⟩ := sent
    obtain ⟨hdevice, hstate⟩ := Client.processSend_state hsend
    have hok := (h.asked.books.live k cl hka).processSend hs hsend
    rw [meets_modify]
    rcases hstate with hsame | ⟨h2, hopen⟩
    · exact h.asked.touchClient hka hdevice hsame (fun l => l.wrote bytes (!cl.obNull && cl'.obNull))
        hok
    · refine h.asked.setClient hka hdevice ?_ ?_ ?_ ?_
        (fun l => l.wrote bytes (!cl.obNull && cl'.obNull)) hok
      · exact fun _ => .inr (.inl h2)
      · exact fun _ => .inr (.inr hopen)
      · intro x cx _ _ _ hm
        rw [h2] at hm
        rw [hopen]
        exact hm.opens
      · intro _
        rw [hopen]
        nofun

/-! ## The connection of a client -/

theorem Holds.wrote (h : Holds env v w c k conn dev slots cl) (hs : cl.state = .connected)
    (bytes : List UInt8) :
    Holds env v (w.asked.note k fun l => { l with wire := l.wire ++ [Wire.raw bytes] }) c k conn dev
      slots cl := by
  have hok := (h.inv.books.live k cl h.clientAt).wroteRaw hs bytes
  have hka : w.asked.clients k = some cl := h.clientAt
  have hset := h.inv.asked.touchClient hka rfl rfl
    (fun l => { l with wire := l.wire ++ [Wire.raw bytes] }) hok
  have hself : w.asked.setClient k cl = w.asked := by
    rw [World.setClient, ← hka, update_eq_self]
  rw [hself] at hset
  exact { h with inv := hset }

theorem Holds.asked (h : Holds env v w c k conn dev slots cl) :
    Holds env v w.asked c k conn dev slots cl :=
  { h with inv := h.inv.asked }

theorem clientWrite_spec (h : Holds env v w c k conn dev slots cl) (hs : cl.state = .connected)
    (buf : List UInt8) :
    Meets (clientWrite env k buf) w (fun _ w' => Holds env v w' c k conn dev slots cl) E := by
  rw [clientWrite, meets_bind, meets_getClient h.clientAt, if_neg (not_not_intro hs), meets_bind,
    meets_get]
  cases env.clientSend w.tick buf.length with
  | none => exact h.asked
  | some size => exact h.wrote hs (buf.take size.val)

theorem clientRead_spec (h : Holds env v w c k conn dev slots cl) (hs : cl.state = .connected)
    (len : Nat) :
    Meets (clientRead env k len) w (fun _ w' => Holds env v w' c k conn dev slots cl) E := by
  rw [clientRead, meets_bind, meets_getClient h.clientAt, if_neg (not_not_intro hs), meets_bind,
    meets_get, meets_bind, meets_modify]
  cases env.clientRecv w.tick len with
  | none => exact h.asked
  | some data => exact h.asked

theorem flushed_frame (m : MuxConnection) (size : Nat) :
    (flushed m size).state = m.state ∧ (flushed m size).sport = m.sport := by
  rw [flushed]
  split
  · exact ⟨rfl, rfl⟩
  · exact ⟨rfl, rfl⟩

/-- A connection and its client that are both open. -/
structure OpenPair (env : Outside) (v : Scope) (w : World) (c k : Ptr) (conn : Conn) (dev : Device)
    (slots : Collection) (cl : Client) : Prop where
  holds : Holds env v w c k conn dev slots cl
  unlocked : v.deviceLock = false
  hasId : cl.connectDevice = dev.id
  connState : conn.mux.state = .connected
  clientState : cl.state = .connected

theorem OpenPair.matched (h : OpenPair env v w c k conn dev slots cl) : Matched conn.mux cl.state :=
  .inr (.inr ⟨h.connState, h.clientState⟩)

theorem OpenPair.tornDown (h : OpenPair env v w c k conn dev slots cl) (hcalls : Calls env v E) :
    Meets (connectionTeardown env c) w (fun _ w' => Inv env v.bare w') E := by
  refine (h.holds.tornDown hcalls h.matched.tearable h.hasId ?_).post fun _ _ ht => ht.inv
  intro _ hlock
  rw [h.unlocked] at hlock
  cases hlock

theorem OpenPair.updated (h : OpenPair env v w c k conn dev slots cl) :
    Meets (updateConnection c) w (fun _ w' => Inv env v.bare w') E :=
  (updateConnection_spec h.holds h.hasId h.matched).post fun _ _ hd => hd.inv

theorem clientReadable_spec (h : OpenPair env v w c k conn dev slots cl) (hcalls : Calls env v E)
    (pollin : Bool) :
    Meets (clientReadable env c k pollin) w (fun _ w' => Inv env v.bare w') E := by
  rw [clientReadable, meets_bind, meets_getConn h.holds.connAt]
  split
  · refine (clientRead_spec h.holds h.clientState _).bind ?_
    intro data w1 h1
    split
    · exact OpenPair.tornDown { h with holds := h1 } hcalls
    · refine (h1.sendTcp thAck data).bind ?_
      rintro ok w2 ⟨mux, hsent, h2, -⟩
      have hopen : mux.state = .connected := hsent.state.trans h.connState
      cases ok with
      | true =>
        rw [if_pos rfl, meets_bind, meets_getConn h2.connAt, meets_bind, meets_modify]
        have h3 := h2.mux { mux with txSeq := mux.txSeq + BitVec.ofNat 32 data.length } rfl
        exact OpenPair.updated ⟨h3, h.unlocked, h.hasId, hopen, h.clientState⟩
      | false =>
        rw [if_neg Bool.false_ne_true]
        exact OpenPair.tornDown ⟨h2, h.unlocked, h.hasId, hopen, h.clientState⟩ hcalls
  · exact h.updated

theorem processConnection_spec (h : OpenPair env v w c k conn dev slots cl) (hcalls : Calls env v E)
    (pollin pollout : Bool) :
    Meets (processConnection env c k pollin pollout) w (fun _ w' => Inv env v.bare w') E := by
  rw [processConnection, meets_bind, meets_getConn h.holds.connAt]
  split
  · refine (clientWrite_spec h.holds h.clientState _).bind ?_
    intro size w1 h1
    split
    · exact OpenPair.tornDown { h with holds := h1 } hcalls
    · obtain ⟨hstate, hsport⟩ := flushed_frame conn.mux size
      rw [meets_bind, meets_modify]
      refine clientReadable_spec ⟨h1.mux (flushed conn.mux size) hsport, h.unlocked, h.hasId, ?_,
        h.clientState⟩ hcalls pollin
      exact hstate.trans h.connState
  · exact clientReadable_spec h hcalls pollin

/-- **`device_client_process`.** -/
theorem deviceClientProcess_spec (h : Inv env v w) (hv : Free v) (hcalls : Calls env v E)
    (hk : w.clients k = some cl) (hs : cl.state = .connected) (pollin pollout : Bool) :
    Meets (deviceClientProcess env cl.connectDevice k pollin pollout) w
      (fun _ w' => Inv env v w') E := by
  have hbusy : Busy cl.state := .inr (.inr hs)
  rw [deviceClientProcess]
  refine (getMuxConnection_spec h hv.deviceLock cl.connectDevice k ?_ hcalls.uninitialised).bind ?_
  · exact fun hgate d dev hd hid => h.linked.gated hgate k cl d dev hk hbusy hd hid
  rintro r w1 ⟨hq, h1, hfinds⟩
  cases r with
  | none => exact h1
  | some c =>
    obtain ⟨d, dev, conn, hf⟩ := hfinds
    have hd1 : w1.devices d = some dev := by
      rw [hq.devices]
      exact hf.devAt
    obtain ⟨conn', slots, k', cl', -, hholds, hid, hm⟩ :=
      h1.hold hv.conn hv.client hv.clientLock hd1 (hq.lists.mpr hf.lists)
    have hsame : conn' = conn := by
      have hc := hholds.connAt
      rw [hq.conns, hf.connAt] at hc
      exact (some.inj hc).symm
    subst hsame
    have hkk : k' = k := some.inj (hholds.client.symm.trans hf.client)
    subst hkk
    have hcl : cl' = cl := by
      have hk' := hholds.clientAt
      rw [hq.clients, hk] at hk'
      exact (some.inj hk').symm
    subst hcl
    have hopen : conn'.mux.state = .connected := by
      rcases hm with ⟨_, hm⟩ | ⟨hm, _⟩ | ⟨hm, _⟩
      · rw [hs] at hm
        cases hm
      · exact hm
      · exact hm
    refine (processConnection_spec ⟨hholds, hv.deviceLock, hid, hopen, hs⟩
      ⟨hcalls.memory, hcalls.overrun, hcalls.uninitialised⟩ pollin pollout).post ?_
    intro _ w' hw'
    have hbare : (v.holding c k').bare = v := Scope.bare_eq hv.conn hv.client
    rw [hbare] at hw'
    exact hw'

/-! ## Sockets -/

/-- The client with a descriptor. -/
def World.clientFor (w : World) (fd : Nat) : Option Ptr :=
  w.clientList.find? w.clients fun cl => cl.fd = fd

/-- **`client_accept`.** -/
theorem clientAccept_spec (h : Inv env v w) (hv : Free v) (fd : Nat) :
    Meets (clientAccept fd) w (fun _ w' => Inv env v w') E := by
  have hread : ∀ q a (R : Client → World → Prop), w.clients q = some a →
      (Meets (getClient q) w R E ↔ R (id a) w) := fun q a R hq => meets_getClient hq
  have hw : w.clientLock = false := h.clientLock.trans hv.clientLock
  rw [clientAccept, meets_bind, meets_get, meets_bind, meets_mapM hread h.clients_live]
  split
  · exact h
  · rw [meets_bind, meets_modify, meets_bind]
    have hlock : ∀ w' : World, w'.clientLock = w.clientLock → w'.clientLock = false :=
      fun w' hw' => hw'.trans hw
    refine (meets_lockClients (hlock _ ?_)).mpr ?_
    · rfl
    refine (h.addClient fd).quiet ?_ h.linked.early
    refine ⟨rfl, rfl, rfl, rfl, rfl, rfl, ?_, rfl, rfl, rfl⟩
    exact hw.symm

/-- A message that a client must not send, and the answer to it is queued. -/
def SpeaksOutOfTurn (env : Outside) (w : World) (cl : Client) : Prop :=
  (cl.state = .listen ∨ cl.state = .connecting1) ∧
    ∃ ib, w.intake env cl = .message ib ∧
      Rebuked env { cl with ib := ib } (ib ++ env.stale w.tick) (w.tick + 1)

/-- `process_recv` finds a client without an in-buffer, and less than a header was read before. -/
def HangsUp (cl : Client) : Prop :=
  cl.state = .connecting2 ∧ cl.ib.length < sizeofUsbmuxdHeader

/-- `process_recv` finds a client without an in-buffer, and a header was read before. -/
def ReadsOn (cl : Client) : Prop :=
  cl.state = .connecting2 ∧ ¬ cl.ib.length < sizeofUsbmuxdHeader

/-- The result of the connect request cannot be sent. -/
def LosesResult (env : Outside) (w : World) (cl : Client) : Prop :=
  cl.state = .connecting2 ∧ w.drain env cl = none

/-- A command for a device that is still `MUXDEV_INIT`. -/
def AsksEarly (env : Outside) (w : World) (cl : Client) : Prop :=
  cl.state = .command ∧
    ∃ ib, w.intake env cl = .message ib ∧ ¬ Open w (connectTarget env (ib ++ env.stale w.tick))

/-- **`client_process`.** -/
theorem clientProcess_spec (h : Inv env v w) (hv : Free v) (hcalls : Calls env v E) {fd : Nat}
    {pollin pollout : Bool}
    (hearly : ∀ k cl, w.clientFor fd = some k → w.clients k = some cl → pollin = true →
      AsksEarly env w cl → ¬ v.gate)
    (hturn : ∀ k cl, w.clientFor fd = some k → w.clients k = some cl → pollin = true →
      SpeaksOutOfTurn env w cl → E .clientFreed)
    (hmid : ∀ k cl, w.clientFor fd = some k → w.clients k = some cl → pollin = true →
      HangsUp cl → E .clientFreed)
    (hnull : ∀ k cl, w.clientFor fd = some k → w.clients k = some cl → pollin = true →
      ReadsOn cl → E .bufferNull)
    (hlost : ∀ k cl, w.clientFor fd = some k → w.clients k = some cl → pollin = false →
      pollout = true → LosesResult env w cl → E .clientFreed) :
    Meets (clientProcess env fd pollin pollout) w (fun _ w' => Inv env v w') E := by
  have hw : w.clientLock = false := h.clientLock.trans hv.clientLock
  have hself : ({ ({ w with clientLock := true } : World) with clientLock := false } : World) = w := by
    cases w
    cases hw
    rfl
  rw [clientProcess, meets_bind, meets_lockClients hw, meets_bind, meets_get, meets_bind,
    meets_search (h.lockClients true).clients_live, meets_bind, meets_unlockClients, hself]
  dsimp only
  have hfor : w.clientList.elems.find? (fun q => (w.clients q).any fun cl => decide (cl.fd = fd)) =
      w.clientFor fd := rfl
  rw [hfor]
  cases hfind : w.clientFor fd with
  | none => exact h
  | some k =>
    obtain ⟨-, cl, hk, -⟩ := find?_any hfind
    show Meets (getClient k >>= _) w _ E
    rw [meets_bind, meets_getClient hk]
    by_cases hconnected : cl.state = .connected
    · rw [if_pos hconnected]
      exact deviceClientProcess_spec h hv hcalls hk hconnected pollin pollout
    · rw [if_neg hconnected]
      cases pollin with
      | true =>
        rw [if_pos rfl]
        refine processRecv_spec h hv hcalls hk hconnected ?_ ?_ ?_ ?_
        · intro ib hs hin hgate
          by_contra hshut
          exact hearly k cl hfind hk rfl ⟨hs, ib, hin, hshut⟩ hgate
        · intro ib hs hin hrebuke
          exact hturn k cl hfind hk rfl ⟨hs, ib, hin, hrebuke⟩
        · exact fun hs hshort => hmid k cl hfind hk rfl ⟨hs, hshort⟩
        · exact fun hs hlong => hnull k cl hfind hk rfl ⟨hs, hlong⟩
      | false =>
        rw [if_neg Bool.false_ne_true]
        cases pollout with
        | true =>
          rw [if_pos rfl]
          exact processSend_spec h hv hcalls hk hconnected
            fun hs hlost' => hlost k cl hfind hk rfl rfl ⟨hs, hlost'⟩
        | false => exact h

end IDeviceStack.Usbmuxd.Daemon
