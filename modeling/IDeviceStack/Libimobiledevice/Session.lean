/-
# `Libimobiledevice.Session` — what a session leaves behind

Runs of a lockdown client: any calls, in any order, with any answers of the device.

**Proved here.**  `session_sound_iff`, `encrypted_channels`.
-/
import IDeviceStack.Lib.Fault
import IDeviceStack.Libimobiledevice.Lockdown

namespace IDeviceStack.Libimobiledevice

open Lib Libplist Libplist.Xplist

/-! ## Runs -/

/-- A call of the client's user, with what happens around it. -/
inductive LockdownCall where
  | start (hostId : List UInt8) (x : StartExchanges)
  | stop (sessionId : Option (List UInt8)) (x : Exchange)
  | activate (activationRecord : Plist) (x : Exchange)
  | deactivate (x : Exchange)
  | getSyncDataClasses (x : Exchange)
  | getValue (domain key : Option String) (x : Exchange)

/-- The result of a call, and the client after it. -/
def LockdownCall.exec (c : LockdownClient) : LockdownCall → LockdowndError × LockdownClient
  | .start hostId x => lockdowndStartSession c (some hostId) x
  | .stop sessionId x => lockdowndStopSession c sessionId x
  | .activate record x => lockdowndActivate c record x
  | .deactivate x => lockdowndDeactivate c x
  | .getSyncDataClasses x => lockdowndGetSyncDataClasses c x
  | .getValue domain key x =>
    let r := lockdowndGetValue c domain key x
    (r.1.1, r.2)

/-- A step of a run; nothing can go wrong with the memory. -/
def sessionStep (c : LockdownClient) (call : LockdownCall) : Except Empty LockdownClient :=
  .ok (call.exec c).2

def LockdownCall.IsStart : LockdownCall → Prop
  | .start _ _ => True
  | _ => False

/-- The calls that test `session_id`. -/
def LockdownCall.NeedsSession : LockdownCall → Prop
  | .activate _ _ | .deactivate _ | .getSyncDataClasses _ => True
  | _ => False

/-- The dictionary that confirms a session, if there is one. -/
def StartExchanges.confirmed (x : StartExchanges) : Option Dict :=
  if x.start.sent ≠ .success then none
  else
    match x.start.answer with
    | .failed _ _ => none
    | .reply dict =>
      if lockdownCheckResult dict (some "StartSession") = .success then some dict else none

def Answer.IsReply : Answer → Prop
  | .reply _ => True
  | .failed _ _ => False

/-- The device wants the session to be encrypted. -/
def WantsSsl (dict : Dict) : Prop := boolVal (dict.getItem "EnableSessionSSL") ≠ 0

instance (dict : Dict) : Decidable (WantsSsl dict) :=
  inferInstanceAs (Decidable (boolVal (dict.getItem "EnableSessionSSL") ≠ 0))

/-- The identifier of a session, if the device gives one. -/
def givenId (dict : Dict) : Option (List UInt8) := (dict.getItem "SessionID").bind stringVal

/-! ## One start -/

/-- Other calls of a client have no part in this. -/
def LockdownClient.SameSession (c c' : LockdownClient) : Prop :=
  c'.sessionId = c.sessionId ∧ c'.sslEnabled = c.sslEnabled ∧ c'.sslData = c.sslData ∧
    c'.secured = c.secured ∧ c'.running = c.running

section Start

variable {c : LockdownClient}

theorem LockdownClient.sameSession_send (dict : Dict) : c.SameSession (c.send dict) :=
  ⟨rfl, rfl, rfl, rfl, rfl⟩

theorem stopSession_answered (id : List UInt8) {x : Exchange} {dict : Dict}
    (hx : x.answer = .reply dict) (hssl : c.sslEnabled = c.sslData) :
    (lockdowndStopSession c (some id) x).2.sessionId = none ∧
      (lockdowndStopSession c (some id) x).2.sslEnabled = false ∧
      (lockdowndStopSession c (some id) x).2.sslData = false ∧
      (lockdowndStopSession c (some id) x).2.secured = false := by
  have hrun : (lockdowndStopSession c (some id) x).2 = (c.send
      ((newRequest c.label "StopSession").setItem "SessionID" (newString id))).sessionEnded := by
    simp only [lockdowndStopSession, hx]
  rw [hrun]
  refine ⟨rfl, rfl, ?_, rfl⟩
  show (if c.sslEnabled = true then (disableSsl c.sslData).2 else c.sslData) = false
  by_cases hflag : c.sslEnabled = true
  · rw [if_pos hflag]
    rfl
  · rw [if_neg hflag, ← hssl]
    exact Bool.not_eq_true _ ▸ hflag

theorem stopSession_unanswered {id : Option (List UInt8)} {x : Exchange}
    (hx : ¬ x.answer.IsReply) : c.SameSession (lockdowndStopSession c id x).2 := by
  cases id with
  | none => exact ⟨rfl, rfl, rfl, rfl, rfl⟩
  | some id =>
    simp only [lockdowndStopSession]
    cases hanswer : x.answer with
    | failed e h => exact LockdownClient.sameSession_send _
    | reply dict => exact absurd (hanswer ▸ trivial) hx

theorem startSession_cases (hostId : Option (List UInt8)) (x : StartExchanges) :
    ∃ c1, (stopRunning c x.stop).SameSession c1 ∧
      ((∃ dict, x.confirmed = some dict ∧
          lockdowndStartSession c hostId x = sessionConfirmed c1 dict x.ssl) ∨
        (x.confirmed = none ∧ ∃ e, e ≠ .success ∧
          lockdowndStartSession c hostId x = (e, { c1 with running := false }))) := by
  refine ⟨(stopRunning c x.stop).send (startRequest c.label hostId x.systemBuid),
    LockdownClient.sameSession_send _, ?_⟩
  simp only [lockdowndStartSession, StartExchanges.confirmed]
  by_cases hsent : x.start.sent = .success
  · rw [if_neg (not_not.mpr hsent), if_neg (not_not.mpr hsent)]
    cases hanswer : x.start.answer with
    | failed e h => exact .inr ⟨rfl, .plistError, by simp, rfl⟩
    | reply dict =>
      simp only
      by_cases hcheck : lockdownCheckResult dict (some "StartSession") = .success
      · rw [if_pos hcheck, if_pos hcheck]
        exact .inl ⟨dict, rfl, rfl⟩
      · rw [if_neg hcheck, if_neg hcheck]
        exact .inr ⟨rfl, _, hcheck, rfl⟩
  · rw [if_pos hsent, if_pos hsent]
    exact .inr ⟨rfl, _, hsent, rfl⟩

end Start

/-! ## What is asked of a run -/

/-- One call, from the client `c`: the two notes of encryption agree after it; a start that fails
leaves no session and no encryption; and a request that needs a session goes out only in one. -/
structure SessionSound (c : LockdownClient) (call : LockdownCall) : Prop where
  ssl : (call.exec c).2.sslEnabled = (call.exec c).2.sslData
  failed : call.IsStart → (call.exec c).1 ≠ .success →
    (call.exec c).2.sessionId = none ∧ (call.exec c).2.sslData = false
  gated : call.NeedsSession → (call.exec c).2.requests ≠ c.requests → c.running = true

/-- The session that is there is stopped, and the device answers. -/
def Stops (c : LockdownClient) (x : StartExchanges) : Prop :=
  c.sessionId ≠ none ∧ x.stop.answer.IsReply

/-- A start that goes well.  An encrypted session is stopped first.  If an old session is left, a new
one is confirmed, and encrypted where the device wants that.  If none is left, only a session
with an identifier and without the encryption it should have is excluded. -/
def StartServed (c : LockdownClient) (x : StartExchanges) : Prop :=
  (c.sslData = true → Stops c x) ∧
    (c.sessionId ≠ none → ¬ Stops c x →
      ∃ dict, x.confirmed = some dict ∧ (WantsSsl dict → x.ssl = .handshakeDone)) ∧
    (c.sessionId = none ∨ Stops c x →
      ∀ dict, x.confirmed = some dict → WantsSsl dict → givenId dict ≠ none →
        x.ssl = .handshakeDone)

/-- Only the starts of a run can spoil it. -/
def SessionServed (c : LockdownClient) : LockdownCall → Prop
  | .start _ x => StartServed c x
  | _ => True

/-- What holds between the calls. -/
structure LockdownClient.Settled (c : LockdownClient) : Prop where
  ssl : c.sslEnabled = c.sslData
  running : c.sessionId ≠ none → c.running = true

section Steps

variable {c : LockdownClient}

theorem sessionConfirmed_cases (dict : Dict) (ssl : SslOutcome) (hplain : c.sslData = false) :
    (sessionConfirmed c dict ssl).2.sessionId = (givenId dict).or c.sessionId ∧
      (((WantsSsl dict → ssl = .handshakeDone) ∧ (sessionConfirmed c dict ssl).1 = .success ∧
          (sessionConfirmed c dict ssl).2.sslEnabled = decide (WantsSsl dict) ∧
          (sessionConfirmed c dict ssl).2.sslData = decide (WantsSsl dict) ∧
          (sessionConfirmed c dict ssl).2.running = true) ∨
        (WantsSsl dict ∧ ssl ≠ .handshakeDone ∧ (sessionConfirmed c dict ssl).1 = .sslError ∧
          (sessionConfirmed c dict ssl).2.sslEnabled = false ∧
          (sessionConfirmed c dict ssl).2.sslData = false)) := by
  by_cases hwants : WantsSsl dict
  · by_cases hdone : ssl = .handshakeDone
    · have hrun : sessionConfirmed c dict ssl = (.success, { c with
          sessionId := (givenId dict).or c.sessionId
          secured := true, sslData := true, sslEnabled := true, running := true }) := by
        have hw : boolVal (dict.getItem "EnableSessionSSL") ≠ 0 := hwants
        simp only [sessionConfirmed, if_pos hw, enableSsl, hplain, Bool.false_eq_true, if_false,
          if_pos hdone]
        simp [hw, sslResult, lockdowndError, ideviceToServiceError, givenId]
      rw [hrun]
      exact ⟨rfl, .inl ⟨fun _ => hdone, rfl, (decide_eq_true hwants).symm,
        (decide_eq_true hwants).symm, rfl⟩⟩
    · have hrun : sessionConfirmed c dict ssl = (.sslError, { c with
          sessionId := (givenId dict).or c.sessionId
          secured := true, sslData := false, sslEnabled := false, running := false }) := by
        have hw : boolVal (dict.getItem "EnableSessionSSL") ≠ 0 := hwants
        simp only [sessionConfirmed, if_pos hw, enableSsl, hplain, Bool.false_eq_true, if_false,
          if_neg hdone]
        simp [hw, sslResult, lockdowndError, ideviceToServiceError, givenId]
      rw [hrun]
      exact ⟨rfl, .inr ⟨hwants, hdone, rfl, rfl, rfl⟩⟩
  · have hrun : sessionConfirmed c dict ssl = (.success, { c with
        sessionId := (givenId dict).or c.sessionId
        secured := false, sslEnabled := false, running := true }) := by
      have hw : ¬ boolVal (dict.getItem "EnableSessionSSL") ≠ 0 := hwants
      simp only [sessionConfirmed, if_neg hw]
      simp [hw, givenId]
    rw [hrun]
    exact ⟨rfl, .inl ⟨fun h => absurd h hwants, rfl, (decide_eq_false hwants).symm,
      hplain.trans (decide_eq_false hwants).symm, rfl⟩⟩

theorem sessionConfirmed_encrypted (dict : Dict) (ssl : SslOutcome) (hssl : c.sslData = true) :
    (sessionConfirmed c dict ssl).2.sslEnabled = false ∧
      (sessionConfirmed c dict ssl).2.sslData = true := by
  by_cases hw : boolVal (dict.getItem "EnableSessionSSL") ≠ 0
  · simp only [sessionConfirmed, if_pos hw, enableSsl, hssl, if_true]
    simp [sslResult, lockdowndError, ideviceToServiceError]
  · simp only [sessionConfirmed, if_neg hw]
    exact ⟨trivial, hssl⟩

end Steps

section Calls

variable {c : LockdownClient}

theorem LockdownClient.Settled.congr {c' : LockdownClient} (h : c.Settled) (hsame : c.SameSession c') :
    c'.Settled := by
  obtain ⟨hid, henabled, hdata, -, hrunning⟩ := hsame
  exact ⟨by rw [henabled, hdata, h.ssl], fun hne => hrunning.trans (h.running (hid ▸ hne))⟩

theorem stopRunning_cases (h : c.Settled) (x : StartExchanges) :
    (Stops c x ∧ (stopRunning c x.stop).sessionId = none ∧
        (stopRunning c x.stop).sslEnabled = false ∧ (stopRunning c x.stop).sslData = false) ∨
      (¬ Stops c x ∧ c.SameSession (stopRunning c x.stop)) := by
  rw [stopRunning]
  cases hid : c.sessionId with
  | none =>
    rw [if_pos rfl]
    exact .inr ⟨fun hstops => hstops.1 hid, rfl, rfl, rfl, rfl, rfl⟩
  | some id =>
    rw [if_neg (Option.some_ne_none id)]
    cases hanswer : x.stop.answer with
    | reply dict =>
      obtain ⟨hnone, henabled, hdata, -⟩ := stopSession_answered id hanswer h.ssl
      have hstops : Stops c x := by
        refine ⟨hid ▸ Option.some_ne_none id, ?_⟩
        rw [hanswer]
        trivial
      exact .inl ⟨hstops, hnone, henabled, hdata⟩
    | failed e he =>
      have hno : ¬ x.stop.answer.IsReply := by
        rw [hanswer]
        exact fun hreply => hreply
      exact .inr ⟨fun hstops => hno hstops.2, stopSession_unanswered hno⟩

/-- **One start.** -/
theorem start_sound_iff (h : c.Settled) (hostId : List UInt8) (x : StartExchanges) :
    (SessionSound c (.start hostId x) ↔ StartServed c x) ∧
      (SessionSound c (.start hostId x) →
        (LockdownCall.exec c (.start hostId x)).2.sessionId ≠ none →
          (LockdownCall.exec c (.start hostId x)).2.running = true) := by
  obtain ⟨r, hr⟩ : ∃ r, lockdowndStartSession c (some hostId) x = r := ⟨_, rfl⟩
  have hexec : LockdownCall.exec c (.start hostId x) = r := hr
  have hsound : SessionSound c (.start hostId x) ↔
      r.2.sslEnabled = r.2.sslData ∧
        (r.1 ≠ .success → r.2.sessionId = none ∧ r.2.sslData = false) := by
    constructor
    · intro hs
      have hssl := hs.ssl
      have hfailed := hs.failed trivial
      rw [hexec] at hssl hfailed
      exact ⟨hssl, hfailed⟩
    · rintro ⟨hssl, hfailed⟩
      exact ⟨by rw [hexec]; exact hssl, fun _ => by rw [hexec]; exact hfailed, fun hno => hno.elim⟩
  rw [hsound, hexec]
  obtain ⟨c1, ⟨hid, henabled, hdata, -⟩, hcases⟩ := startSession_cases (c := c) (some hostId) x
  rw [hr] at hcases
  have hstop := stopRunning_cases h x
  cases hplain : c1.sslData with
  | true =>
    -- the old encryption is still there
    have hleft : ¬ (c.sslData = true → Stops c x) := by
      rcases hstop with ⟨-, -, -, hoff⟩ | ⟨hno, -, -, hsame, -⟩
      · rw [← hdata, hplain] at hoff
        cases hoff
      · exact fun himp => hno (himp (hsame ▸ hdata ▸ hplain))
    have hbad : ¬ (r.2.sslEnabled = r.2.sslData ∧
        (r.1 ≠ .success → r.2.sessionId = none ∧ r.2.sslData = false)) := by
      rintro ⟨hagree, herror⟩
      rcases hcases with ⟨dict, -, rfl⟩ | ⟨-, e, he, rfl⟩
      · obtain ⟨hoff, hon⟩ := sessionConfirmed_encrypted dict x.ssl hplain
        rw [hoff, hon] at hagree
        cases hagree
      · have hoff := (herror he).2
        rw [show c1.sslData = false from hoff] at hplain
        cases hplain
    exact ⟨iff_of_false hbad fun hserved => hleft hserved.1, fun hgood => absurd hgood hbad⟩
  | false =>
    have hagree1 : c1.sslEnabled = c1.sslData := by
      rcases hstop with ⟨-, -, hoff, hoff'⟩ | ⟨-, -, hsame, hsame', -⟩
      · rw [henabled, hdata, hoff, hoff']
      · rw [henabled, hdata, hsame, hsame', h.ssl]
    have hfirst : c.sslData = true → Stops c x := by
      intro hon
      rcases hstop with ⟨hstops, -⟩ | ⟨-, -, -, hsame, -⟩
      · exact hstops
      · rw [← hsame, ← hdata, hplain] at hon
        cases hon
    have hnew : c.sessionId = none ∨ Stops c x → c1.sessionId = none := by
      rintro (hnone | hstops)
      · rcases hstop with ⟨hstops, -⟩ | ⟨-, hsame, -⟩
        · exact absurd hnone hstops.1
        · rw [hid, hsame, hnone]
      · rcases hstop with ⟨-, hnone, -⟩ | ⟨hno, -⟩
        · rw [hid, hnone]
        · exact absurd hstops hno
    have hold : c.sessionId ≠ none → ¬ Stops c x → c1.sessionId ≠ none := by
      intro hsome hno
      rcases hstop with ⟨hstops, -⟩ | ⟨-, hsame, -⟩
      · exact absurd hstops hno
      · rw [hid, hsame]
        exact hsome
    rcases hcases with ⟨dict, hconfirmed, rfl⟩ | ⟨hnone, e, he, rfl⟩
    · obtain ⟨hgiven, hways⟩ := sessionConfirmed_cases dict x.ssl hplain
      rcases hways with ⟨hdone, hret, hon, hon', hrunning⟩ | ⟨hwants, hfail, hret, hoff, hoff'⟩
      · refine ⟨iff_of_true ⟨hon.trans hon'.symm, fun hne => absurd hret hne⟩
          ⟨hfirst, fun _ _ => ⟨dict, hconfirmed, hdone⟩, fun _ dict' hdict' hwants _ => ?_⟩,
          fun _ _ => hrunning⟩
        rw [hconfirmed] at hdict'
        cases hdict'
        exact hdone hwants
      · -- the handshake has failed
        have herror : (sessionConfirmed c1 dict x.ssl).1 ≠ .success := by
          rw [hret]
          nofun
        refine ⟨⟨?_, ?_⟩, fun hgood hne => absurd (hgood.2 herror).1 hne⟩
        · rintro ⟨-, hbehind⟩
          have hnone := (hbehind herror).1
          rw [hgiven] at hnone
          obtain ⟨hgiven', hid'⟩ := Option.or_eq_none_iff.mp hnone
          refine ⟨hfirst, fun hsome hno => absurd hid' (hold hsome hno), ?_⟩
          intro _ dict' hdict' _ hsome
          rw [hconfirmed] at hdict'
          cases hdict'
          exact absurd hgiven' hsome
        · rintro ⟨-, hleft, hnew'⟩
          refine ⟨hoff.trans hoff'.symm, fun _ => ⟨?_, hoff'⟩⟩
          by_cases hno : c.sessionId = none ∨ Stops c x
          · rw [hgiven, hnew hno, Option.or_none]
            by_contra hsome
            exact hfail (hnew' hno dict hconfirmed hwants hsome)
          · obtain ⟨hsome, hno⟩ := not_or.mp hno
            obtain ⟨dict', hdict', hdone⟩ := hleft hsome hno
            rw [hconfirmed] at hdict'
            cases hdict'
            exact absurd (hdone hwants) hfail
    · refine ⟨⟨?_, ?_⟩, fun hgood hne => absurd (hgood.2 he).1 hne⟩
      · rintro ⟨-, hbehind⟩
        refine ⟨hfirst, fun hsome hno => absurd (hbehind he).1 (hold hsome hno), ?_⟩
        intro _ dict' hdict'
        rw [hnone] at hdict'
        cases hdict'
      · rintro ⟨-, hleft, -⟩
        refine ⟨hagree1, fun _ => ⟨hnew ?_, hplain⟩⟩
        by_contra hno
        obtain ⟨hsome, hno⟩ := not_or.mp hno
        obtain ⟨dict', hdict', -⟩ := hleft hsome hno
        rw [hnone] at hdict'
        cases hdict'

theorem exec_sameSession {call : LockdownCall} (hstart : ¬ call.IsStart)
    (hstop : ∀ id x, call ≠ .stop id x) : c.SameSession (call.exec c).2 := by
  have hself : c.SameSession c := ⟨rfl, rfl, rfl, rfl, rfl⟩
  have hwith : ∀ r : LockdowndError × LockdownClient, c.SameSession r.2 →
      c.SameSession (withSession c r).2 := by
    intro r hr
    rw [withSession]
    split
    · exact hself
    · exact hr
  cases call with
  | start hostId x => exact absurd trivial hstart
  | stop id x => exact absurd rfl (hstop id x)
  | activate record x => exact hwith _ (LockdownClient.sameSession_send _)
  | deactivate x => exact hwith _ (LockdownClient.sameSession_send _)
  | getSyncDataClasses x => exact hwith _ (LockdownClient.sameSession_send _)
  | getValue domain key x => exact LockdownClient.sameSession_send _

theorem stopSession_settled (h : c.Settled) (id : Option (List UInt8)) (x : Exchange) :
    (lockdowndStopSession c id x).2.Settled := by
  by_cases hreply : x.answer.IsReply
  · cases id with
    | none => exact h
    | some id =>
      cases hanswer : x.answer with
      | failed e he =>
        rw [hanswer] at hreply
        exact hreply.elim
      | reply dict =>
        obtain ⟨hnone, henabled, hdata, -⟩ := stopSession_answered id hanswer h.ssl
        exact ⟨henabled.trans hdata.symm, fun hne => absurd hnone hne⟩
  · exact h.congr (stopSession_unanswered hreply)

theorem gated_of_needsSession {call : LockdownCall} (hneeds : call.NeedsSession)
    (hsent : (call.exec c).2.requests ≠ c.requests) : c.sessionId ≠ none := by
  have hwith : ∀ r : LockdowndError × LockdownClient,
      (withSession c r).2.requests ≠ c.requests → c.sessionId ≠ none := by
    intro r hr hnone
    rw [withSession, if_pos hnone] at hr
    exact hr rfl
  cases call with
  | activate record x => exact hwith _ hsent
  | deactivate x => exact hwith _ hsent
  | getSyncDataClasses x => exact hwith _ hsent
  | start hostId x => exact hneeds.elim
  | stop id x => exact hneeds.elim
  | getValue domain key x => exact hneeds.elim

/-- **One call.** -/
theorem call_sound_iff (h : c.Settled) (call : LockdownCall) :
    (SessionSound c call ↔ SessionServed c call) ∧
      (SessionSound c call → (call.exec c).2.Settled) := by
  have hgated : call.NeedsSession → (call.exec c).2.requests ≠ c.requests → c.running = true :=
    fun hneeds hsent => h.running (gated_of_needsSession hneeds hsent)
  -- a call that is no start only has to leave the client settled
  have hother : ¬ call.IsStart → (call.exec c).2.Settled → SessionServed c call →
      (SessionSound c call ↔ SessionServed c call) ∧
        (SessionSound c call → (call.exec c).2.Settled) :=
    fun hstart hsettled hserved =>
      ⟨iff_of_true ⟨hsettled.ssl, fun hyes => absurd hyes hstart, hgated⟩ hserved, fun _ => hsettled⟩
  cases call with
  | start hostId x =>
    obtain ⟨hiff, hrunning⟩ := start_sound_iff h hostId x
    exact ⟨hiff, fun hsound => ⟨hsound.ssl, hrunning hsound⟩⟩
  | stop sid x => exact hother id (stopSession_settled h sid x) trivial
  | activate record x => exact hother id (h.congr (exec_sameSession id (by simp))) trivial
  | deactivate x => exact hother id (h.congr (exec_sameSession id (by simp))) trivial
  | getSyncDataClasses x => exact hother id (h.congr (exec_sameSession id (by simp))) trivial
  | getValue domain key x => exact hother id (h.congr (exec_sameSession id (by simp))) trivial

end Calls

theorem session_along_iff {c : LockdownClient} (h : c.Settled) (calls : List LockdownCall) :
    Along sessionStep SessionSound c calls ↔ Along sessionStep SessionServed c calls := by
  induction calls generalizing c with
  | nil => exact Iff.rfl
  | cons call calls ih =>
    obtain ⟨hiff, hnext⟩ := call_sound_iff h call
    rw [Along, Along, hiff]
    constructor
    · rintro ⟨hserved, hrest⟩
      refine ⟨hserved, fun c' hstep => ?_⟩
      cases hstep
      exact (ih (hnext (hiff.mpr hserved))).mp (hrest _ rfl)
    · rintro ⟨hserved, hrest⟩
      refine ⟨hserved, fun c' hstep => ?_⟩
      cases hstep
      exact (ih (hnext (hiff.mpr hserved))).mpr (hrest _ rfl)

/-- **Sessions.**  In a run of a new client the two notes of encryption agree after every call, no
failed start leaves a session, and requests that need a session go out only in one, if and only if
every start of the run is served. -/
theorem session_sound_iff (label : Option (List UInt8)) (calls : List LockdownCall) :
    Along sessionStep SessionSound (.new label) calls ↔
      Along sessionStep SessionServed (.new label) calls :=
  session_along_iff ⟨rfl, fun h => absurd rfl h⟩ calls

/-! ## Sessions left behind -/

/-- A reply of the device to a request. -/
def replyTo (request : String) (entries : Dict) : Exchange :=
  ⟨.success, .reply ((lit "Request", newString (lit request)) :: entries)⟩

/-- No answer. -/
def noReply : Exchange := ⟨.success, .failed .muxError nofun⟩

/-- The entries that start a session with encryption. -/
def encryptedSession : Dict :=
  [(lit "SessionID", newString (lit "1")), (lit "EnableSessionSSL", .scalar (.boolean 1) 1)]

/-- The handshake fails: an error, and the session is there, so that a request to activate goes
out.  And without an answer to the stop, a second start puts the two notes apart. -/
theorem session_left_behind :
    ¬ Along sessionStep SessionSound (.new none)
        [.start [65] ⟨none, noReply, replyTo "StartSession" encryptedSession, .handshakeFailed⟩] ∧
      ¬ Along sessionStep SessionSound (.new none)
        [.start [65] ⟨none, noReply, replyTo "StartSession" encryptedSession, .handshakeDone⟩,
          .start [65] ⟨none, noReply, replyTo "StartSession" encryptedSession, .handshakeDone⟩] := by
  constructor
  · intro h
    have hbehind := h.1.failed trivial (by decide +kernel)
    exact absurd hbehind.1 (by decide +kernel)
  · intro h
    have hssl := (h.2 _ rfl).1.ssl
    exact absurd hssl (by decide +kernel)

/-! ## Requests of an encrypted session -/

/-- No request of a session that was announced as encrypted went out as it is, nor would the
next one. -/
structure LockdownClient.Guarded (c : LockdownClient) : Prop where
  sent : ∀ e ∈ c.requests, e.2.2 = true → e.2.1 = true
  next : c.secured = true → c.sslData = true

/-- A session that is announced as encrypted finds the connection encrypted, or makes it so. -/
def HandshakeServed (c : LockdownClient) : LockdownCall → Prop
  | .start _ x => ∀ dict, x.confirmed = some dict → WantsSsl dict →
      x.ssl = .handshakeDone ∨ (stopRunning c x.stop).sslData = true
  | _ => True

section Guarded

variable {c : LockdownClient}

theorem LockdownClient.Guarded.send (h : c.Guarded) (dict : Dict) : (c.send dict).Guarded := by
  refine ⟨fun e he hsecured => ?_, h.next⟩
  rcases List.mem_append.mp he with hold | hnew
  · exact h.sent e hold hsecured
  · rw [List.mem_singleton.mp hnew] at hsecured ⊢
    exact h.next hsecured

theorem LockdownClient.Guarded.stopSession (h : c.Guarded) (id : Option (List UInt8))
    (x : Exchange) : (lockdowndStopSession c id x).2.Guarded := by
  cases id with
  | none => exact h
  | some id =>
    have hsend := h.send ((newRequest c.label "StopSession").setItem "SessionID" (newString id))
    simp only [lockdowndStopSession]
    cases x.answer with
    | failed e he => exact hsend
    | reply dict => exact ⟨hsend.sent, fun hsecured => absurd hsecured Bool.false_ne_true⟩

theorem LockdownClient.Guarded.stopRunning (h : c.Guarded) (x : Exchange) :
    (stopRunning c x).Guarded := by
  rw [Libimobiledevice.stopRunning]
  split
  · exact h
  · exact h.stopSession c.sessionId x

theorem sessionConfirmed_requests (dict : Dict) (ssl : SslOutcome) :
    (sessionConfirmed c dict ssl).2.requests = c.requests := by
  simp only [sessionConfirmed]
  split <;> rfl

theorem sessionConfirmed_guarded_iff (h : c.Guarded) (dict : Dict) (ssl : SslOutcome) :
    (sessionConfirmed c dict ssl).2.Guarded ↔
      (WantsSsl dict → ssl = .handshakeDone ∨ c.sslData = true) := by
  have hsent : ∀ e ∈ (sessionConfirmed c dict ssl).2.requests, e.2.2 = true → e.2.1 = true := by
    rw [sessionConfirmed_requests]
    exact h.sent
  have hnext : ((sessionConfirmed c dict ssl).2.secured = true →
      (sessionConfirmed c dict ssl).2.sslData = true) ↔
        (WantsSsl dict → ssl = .handshakeDone ∨ c.sslData = true) := by
    by_cases hw : boolVal (dict.getItem "EnableSessionSSL") ≠ 0
    · have hwants : WantsSsl dict := hw
      simp only [sessionConfirmed, if_pos hw, enableSsl, hwants, forall_true_left]
      cases c.sslData with
      | true => simp
      | false => by_cases hdone : ssl = .handshakeDone <;> simp [hdone, hw]
    · have hwants : ¬ WantsSsl dict := hw
      simp only [sessionConfirmed, if_neg hw]
      simp [hw, hwants]
  exact ⟨fun hg => hnext.mp hg.next, fun hg => ⟨hsent, hnext.mpr hg⟩⟩

theorem start_guarded_iff (h : c.Guarded) (hostId : List UInt8) (x : StartExchanges) :
    (LockdownCall.exec c (.start hostId x)).2.Guarded ↔ HandshakeServed c (.start hostId x) := by
  have hstopped := h.stopRunning x.stop
  have hsend := hstopped.send (startRequest c.label (some hostId) x.systemBuid)
  simp only [LockdownCall.exec, lockdowndStartSession, HandshakeServed, StartExchanges.confirmed]
  by_cases hsent : x.start.sent = .success
  · rw [if_neg (not_not.mpr hsent), if_neg (not_not.mpr hsent)]
    cases x.start.answer with
    | failed e he => exact iff_of_true ⟨hsend.sent, hsend.next⟩ (by simp)
    | reply dict =>
      simp only
      by_cases hcheck : lockdownCheckResult dict (some "StartSession") = .success
      · rw [if_pos hcheck, if_pos hcheck, sessionConfirmed_guarded_iff hsend]
        constructor
        · rintro hall dict' hdict'
          cases hdict'
          exact hall
        · exact fun hall => hall dict rfl
      · rw [if_neg hcheck, if_neg hcheck]
        exact iff_of_true ⟨hsend.sent, hsend.next⟩ (by simp)
  · rw [if_pos hsent, if_pos hsent]
    exact iff_of_true ⟨hsend.sent, hsend.next⟩ (by simp)

/-- **One call.** -/
theorem call_guarded_iff (h : c.Guarded) (call : LockdownCall) :
    (call.exec c).2.Guarded ↔ HandshakeServed c call := by
  have hwith : ∀ r : LockdowndError × LockdownClient, r.2.Guarded → (withSession c r).2.Guarded := by
    intro r hr
    rw [withSession]
    split
    · exact h
    · exact hr
  cases call with
  | start hostId x => exact start_guarded_iff h hostId x
  | stop sid x => exact iff_of_true (h.stopSession sid x) trivial
  | activate record x => exact iff_of_true (hwith _ (h.send _)) trivial
  | deactivate x => exact iff_of_true (hwith _ (h.send _)) trivial
  | getSyncDataClasses x => exact iff_of_true (hwith _ (h.send _)) trivial
  | getValue domain key x => exact iff_of_true (h.send _) trivial

theorem guarded_along_iff (h : c.Guarded) (calls : List LockdownCall) :
    Along sessionStep (fun c call => (call.exec c).2.Guarded) c calls ↔
      Along sessionStep HandshakeServed c calls := by
  induction calls generalizing c with
  | nil => exact Iff.rfl
  | cons call calls ih =>
    rw [Along, Along, call_guarded_iff h call]
    constructor
    · rintro ⟨hserved, hrest⟩
      refine ⟨hserved, fun c' hstep => ?_⟩
      cases hstep
      exact (ih ((call_guarded_iff h call).mpr hserved)).mp (hrest _ rfl)
    · rintro ⟨hserved, hrest⟩
      refine ⟨hserved, fun c' hstep => ?_⟩
      cases hstep
      exact (ih ((call_guarded_iff h call).mpr hserved)).mpr (hrest _ rfl)

end Guarded

/-- **Channels that have to be encrypted.**  A service with `ssl_enabled = 1` is encrypted, or there
is no client, if and only if there is no connection or enabling succeeds.  And in a run of a new
lockdown client no request of a session that the device announced as encrypted goes out as it is,
nor would the next one, if and only if each such announcement finds the connection encrypted
or the handshake succeeds. -/
theorem encrypted_channels (port : UInt16) (connected : Bool) (outcome : SslOutcome)
    (serviceCalls : List ServiceCall) (label : Option (List UInt8)) (calls : List LockdownCall) :
    (Secured (serviceClientNew ⟨port, 1⟩ connected outcome) serviceCalls ↔
        (port = 0 ∨ connected = false ∨ outcome = .handshakeDone)) ∧
      (Along sessionStep (fun c call => (call.exec c).2.Guarded) (.new label) calls ↔
        Along sessionStep HandshakeServed (.new label) calls) :=
  ⟨serviceClientNew_secured_iff port connected outcome serviceCalls,
    guarded_along_iff ⟨fun _ he => absurd he List.not_mem_nil, fun h => absurd h Bool.false_ne_true⟩
      calls⟩

/-- The handshake of a service fails: the client is there, and what it sends goes out as it is.
And so does a request in a session that was announced as encrypted. -/
theorem silent_downgrade :
    (∃ c, serviceClientNew ⟨62078, 1⟩ true .handshakeFailed = (.success, some c) ∧
        ¬ (c.run [.send [1, 2, 3] (some 3)]).NoPlaintext) ∧
      ¬ Along sessionStep (fun c call => (call.exec c).2.Guarded) (.new none)
        [.start [65] ⟨none, noReply, replyTo "StartSession" encryptedSession, .handshakeFailed⟩,
          .getValue none none noReply] := by
  refine ⟨⟨⟨false, []⟩, rfl, by decide⟩, fun h => ?_⟩
  have hsecured := (h.2 _ rfl).1.sent
  exact absurd hsecured (by decide +kernel)

end IDeviceStack.Libimobiledevice
