/-
# `Libimobiledevice.SyncBracket` — what opens and closes a sync session

`data_class` of the client is to be there exactly while a session is open.  All ends of
`mobilesync_start` note it and all ends of `mobilesync_finish` free it, and the four
operations that read `SDMessageCancelSession` leave it as it is.

**Proved here.**  `bracketed`, `bracketed_refuted`.
-/
import IDeviceStack.Libimobiledevice.Mobilesync

namespace IDeviceStack.Libimobiledevice

open Libplist Libplist.Xplist List Option

/-! ## Sessions -/

def deviceFinishedSession : List UInt8 := lit "SDMessageDeviceFinishedSession"
def refuseToSync : List UInt8 := lit "SDMessageRefuseToSyncDataClassWithComputer"

def SyncCall.IsStart : SyncCall → Prop
  | .start _ _ _ _ _ => True
  | _ => False

namespace SyncStep

/-- The step has read a reply of this name. -/
def Hears (s : SyncStep) (name : List UInt8) : Prop :=
  ∃ reply, SyncAction.receive .success reply ∈ s.result.actions ∧
    responseType (.success, reply) = some (.ok name)

/-- A start that returned `MOBILESYNC_E_SUCCESS`. -/
def Opens (s : SyncStep) : Prop := s.call.IsStart ∧ s.result.error = .success

/-- A finish or cancel that has sent its message, or a cancellation by the device. -/
def Ends (s : SyncStep) : Prop := s.Bounds ∧ ¬ s.call.IsStart ∨ s.Hears cancelSession

/-- A start that was sent, and failed. -/
def StartFails (s : SyncStep) : Prop :=
  s.call.IsStart ∧ s.result.actions ≠ [] ∧ s.result.error ≠ .success

end SyncStep

/-- A start has succeeded, and nothing has ended its session since. -/
def SessionOpen (done : List SyncStep) : Prop :=
  ∃ before start after, done = before ++ start :: after ∧ start.Opens ∧ ∀ s ∈ after, ¬ s.Ends

theorem sessionOpen_snoc {done : List SyncStep} {s : SyncStep} :
    SessionOpen (done ++ [s]) ↔ s.Opens ∨ SessionOpen done ∧ ¬ s.Ends := by
  constructor
  · rintro ⟨before, start, after, heq, hopens, hafter⟩
    rcases eq_nil_or_concat after with rfl | ⟨after, last, rfl⟩
    · obtain ⟨-, hs⟩ := append_inj' heq rfl
      rw [singleton_inj.mp hs]
      exact .inl hopens
    · rw [concat_eq_append, ← cons_append, ← append_assoc] at heq
      obtain ⟨rfl, hs⟩ := append_inj' heq rfl
      rw [singleton_inj.mp hs]
      exact .inr ⟨⟨before, start, after, rfl, hopens, fun t ht => hafter t (by simp [ht])⟩,
        hafter last (by simp)⟩
  · rintro (hopens | ⟨⟨before, start, after, rfl, hopens, hafter⟩, hends⟩)
    · exact ⟨done, s, [], rfl, hopens, fun _ h => absurd h not_mem_nil⟩
    · refine ⟨before, start, after ++ [s], by simp, hopens, fun t ht => ?_⟩
      rcases mem_append.mp ht with ht | ht
      · exact hafter t ht
      · rwa [mem_singleton.mp ht]

/-- The data class brackets the session, a start that failed can be made again, and a finish
succeeds only where the device has finished. -/
structure Bracketed (done : List SyncStep) (c : MobilesyncClient) : Prop where
  dataClass : c.dataClass.isSome ↔ SessionOpen done
  starts : ∀ s ∈ done, s.StartFails → s.result.client.dataClass = none
  finishes : ∀ s ∈ done, s.call = .finish → s.result.error = .success →
    s.Hears deviceFinishedSession

/-! ## The condition -/

/-- The reply to a start that is no refusal, and has what is asked for. -/
structure Agrees (wantsType wantsVersion : Bool) (received : MobilesyncError × Option Plist) :
    Prop where
  ok : received.1 = .success
  response : ∃ response, getStringVal (arrayGetItem received.2 0) = some response ∧
    response ≠ refuseToSync ∧ response ≠ cancelSession
  syncType : wantsType → ∃ s, getStringVal (arrayGetItem received.2 4) = some s ∧
    s ∈ [lit "SDSyncTypeFast", lit "SDSyncTypeSlow", lit "SDSyncTypeReset"]
  version : wantsVersion → (arrayGetItem received.2 5).isSome

/-- The call comes to read a reply, if the client has a data class. -/
def SyncCall.ReadsReply (c : MobilesyncClient) (x : SyncAnswers) : SyncCall → Prop
  | .receiveChanges _ _ _ | .rawReceive => True
  | .clearAllRecords => x.sent = .success
  | .readyToSendChanges => c.direction = .deviceToComputer
  | .remapIdentifiers _ => c.direction = .computerToDevice
  | _ => False

/-- What the network and the device do not do: fail a start, answer a finish with something
else, or cancel. -/
def SyncCall.Fair (c : MobilesyncClient) (x : SyncAnswers) : SyncCall → Prop
  | .start (some _) anchors _ wantsType wantsVersion =>
    c.dataClass = none → (anchors.bind SyncAnchors.computerAnchor).isSome →
      x.sent = .success ∧ Agrees wantsType wantsVersion x.received
  | .finish => c.dataClass.isSome → x.sent = .success →
      ∀ response, responseType x.received = some (.ok response) → response = deviceFinishedSession
  | call => c.dataClass.isSome → call.ReadsReply c x →
      responseType x.received ≠ some (.ok cancelSession)

/-- The runs whose calls all meet the condition. -/
inductive FairRun : List SyncStep → MobilesyncClient → Prop
  | new : FairRun [] .new
  | step {done : List SyncStep} {c : MobilesyncClient} {r : SyncResult} (call : SyncCall)
      (x : SyncAnswers) : FairRun done c → call.Fair c x → call.exec c x = some r →
      FairRun (done ++ [⟨call, r⟩]) r.client

/-! ## One step -/

section Steps

variable {c : MobilesyncClient} {x : SyncAnswers} {call : SyncCall} {r : SyncResult}

theorem Agrees.readStarted {wantsType wantsVersion : Bool} {err : MobilesyncError}
    {received : MobilesyncError × Option Plist} {output : SyncOutput}
    (ha : Agrees wantsType wantsVersion received)
    (h : readStarted wantsType wantsVersion received = some (err, output)) : err = .success := by
  obtain ⟨received, msg⟩ := received
  obtain ⟨rfl, ⟨response, hresponse, hrefuse, hcancel⟩, htype, hversion⟩ := ha
  have hread : responseType (.success, msg) = some (.ok response) := by
    cases hitem : arrayGetItem msg 0 with
    | none =>
      rw [hitem] at hresponse
      cases hresponse
    | some node =>
      rw [hitem] at hresponse
      simp [responseType, hitem, hresponse]
  have hwanted : ∃ syncType, wantedSyncType wantsType msg = some (.ok syncType) := by
    cases wantsType with
    | false => exact ⟨none, rfl⟩
    | true =>
      obtain ⟨s, hs, hmem⟩ := htype rfl
      cases hitem : arrayGetItem msg 4 with
      | none =>
        rw [hitem] at hs
        cases hs
      | some node =>
        rw [hitem] at hs
        rcases mem_cons.mp hmem with rfl | hmem
        · exact ⟨some .fast, by simp [wantedSyncType, readSyncType, hitem, hs, Except.map]⟩
        rcases mem_cons.mp hmem with rfl | hmem
        · exact ⟨some .slow, by
            simp [wantedSyncType, readSyncType, hitem, hs, Except.map,
              show lit "SDSyncTypeSlow" ≠ lit "SDSyncTypeFast" by decide +kernel]⟩
        · obtain rfl := mem_singleton.mp hmem
          exact ⟨some .reset, by
            simp [wantedSyncType, readSyncType, hitem, hs, Except.map,
              show lit "SDSyncTypeReset" ≠ lit "SDSyncTypeFast" by decide +kernel,
              show lit "SDSyncTypeReset" ≠ lit "SDSyncTypeSlow" by decide +kernel]⟩
  obtain ⟨syncType, hsyncType⟩ := hwanted
  rw [Libimobiledevice.readStarted, hread, bind_eq_bind, bind_some] at h
  dsimp only at h
  rw [if_neg (show ¬ response = lit _ from hrefuse), if_neg hcancel, hsyncType, bind_eq_bind, bind_some] at h
  obtain ⟨version, hv, h⟩ := bind_eq_some_iff.mp h
  cases version with
  | ok version => exact (congrArg Prod.fst (some.inj h)).symm
  | error e =>
    cases wantsVersion with
    | false => cases hv
    | true =>
      obtain ⟨node, hnode⟩ := isSome_iff_exists.mp (hversion rfl)
      simp [wantedVersion, hnode] at hv

theorem start_cases {dataClass : Option (List UInt8)} {anchors : Option SyncAnchors}
    {version : UInt64} {wantsType wantsVersion : Bool}
    (hfair : (SyncCall.start dataClass anchors version wantsType wantsVersion).Fair c x)
    (h : mobilesyncStart c dataClass anchors version wantsType wantsVersion x = some r) :
    r = c.refuse .invalidArg ∨ r.error = .success ∧ r.client.dataClass.isSome := by
  unfold mobilesyncStart at h
  split at h
  · next dataClass computerAnchor hclass hanchor =>
    obtain ⟨hsent, hagrees⟩ := hfair hclass (by rw [hanchor]; rfl)
    dsimp only at h
    rw [if_neg (not_not.mpr hsent)] at h
    obtain ⟨⟨err, output⟩, hread, h⟩ := bind_eq_some_iff.mp h
    obtain rfl := some.inj h
    exact .inr ⟨hagrees.readStarted hread, rfl⟩
  · exact .inl (some.inj h).symm

theorem finish_cases (hfair : SyncCall.finish.Fair c x) (h : mobilesyncFinish c x = some r) :
    r = c.refuse .invalidArg ∨ r.client = .new ∧ r.actions ≠ [] ∧
      (r.error = .success → SyncStep.Hears ⟨.finish, r⟩ deviceFinishedSession) := by
  unfold mobilesyncFinish at h
  split at h
  · exact .inl (some.inj h).symm
  next dataClass hclass =>
  dsimp only at h
  split at h
  · next hsent =>
    obtain rfl := some.inj h
    exact .inr ⟨rfl, by simp, fun hok => absurd hok hsent⟩
  · next hsent =>
    obtain ⟨err, hread, h⟩ := bind_eq_some_iff.mp h
    obtain rfl := some.inj h
    refine .inr ⟨rfl, by simp, fun hok => ?_⟩
    obtain rfl : err = .success := hok
    obtain ⟨read, hresponse, hread⟩ := bind_eq_some_iff.mp hread
    rcases responseType_cases x.received with ⟨hreceived, herr⟩ | ⟨herr, hne⟩
    · cases read with
      | error err =>
        obtain rfl := herr err hresponse
        cases hread
      | ok response =>
        obtain rfl := hfair (by rw [hclass]; rfl) (not_not.mp hsent) response hresponse
        refine ⟨x.received.2, by simp [hreceived], ?_⟩
        rwa [← hreceived]
    · rw [herr] at hresponse
      obtain rfl := some.inj hresponse
      exact absurd (some.inj hread) hne

theorem cancel_cases (reason : Option (List UInt8)) :
    mobilesyncCancel c reason x = c.refuse .invalidArg ∨
      (mobilesyncCancel c reason x).client = .new ∧ (mobilesyncCancel c reason x).actions ≠ [] := by
  unfold mobilesyncCancel
  split
  · exact .inr ⟨rfl, nofun⟩
  · exact .inl rfl

/-- What a call that begins and ends nothing leaves behind. -/
def Keeps (call : SyncCall) (c : MobilesyncClient) (x : SyncAnswers) (r : SyncResult) : Prop :=
  r.client.dataClass = c.dataClass ∧ ∀ err reply, SyncAction.receive err reply ∈ r.actions →
    call.ReadsReply c x ∧ (err, reply) = x.received

theorem keeps_refuse (err : MobilesyncError) : Keeps call c x (c.refuse err) :=
  ⟨rfl, fun _ _ h => absurd h not_mem_nil⟩

theorem keeps_receive {err : MobilesyncError} {output : SyncOutput} {after : List SyncAction}
    {c' : MobilesyncClient} (before : List SyncAction) (hc : c'.dataClass = c.dataClass) (hreads : call.ReadsReply c x)
    (hbefore : ∀ err reply, SyncAction.receive err reply ∉ before)
    (hafter : ∀ err reply, SyncAction.receive err reply ∉ after) :
    Keeps call c x ⟨err, c', before ++ .receive x.received.1 x.received.2 :: after, output⟩ := by
  refine ⟨hc, fun err reply h => ⟨hreads, ?_⟩⟩
  rcases mem_append.mp h with h | h
  · exact absurd h (hbefore _ _)
  rcases mem_cons.mp h with h | h
  · cases h
    rfl
  · exact absurd h (hafter _ _)

theorem keeps_sendOnly (message : List UInt8 → Plist) : Keeps call c x (sendOnly c message x) := by
  unfold sendOnly
  split
  · exact keeps_refuse _
  · exact ⟨rfl, by simp⟩

theorem keeps_exec (hcall : ¬ call.IsBoundary) (h : call.exec c x = some r) : Keeps call c x r := by
  cases call with
  | start => exact absurd trivial hcall
  | finish => exact absurd trivial hcall
  | cancel => exact absurd trivial hcall
  | getAllRecords => exact some.inj h ▸ keeps_sendOnly _
  | getChanges => exact some.inj h ▸ keeps_sendOnly _
  | acknowledgeChanges => exact some.inj h ▸ keeps_sendOnly _
  | receiveChanges =>
    rw [SyncCall.exec, mobilesyncReceiveChanges] at h
    split at h
    · exact some.inj h ▸ keeps_refuse _
    · obtain ⟨⟨err, output⟩, -, h⟩ := bind_eq_some_iff.mp h
      exact some.inj h ▸ keeps_receive [] rfl trivial (by simp) (by simp)
  | clearAllRecords =>
    rw [SyncCall.exec, mobilesyncClearAllRecordsOnDevice] at h
    split at h
    · exact some.inj h ▸ keeps_refuse _
    dsimp only at h
    split at h
    · exact some.inj h ▸ ⟨rfl, by simp⟩
    · next hsent =>
      obtain ⟨⟨err, output⟩, -, h⟩ := bind_eq_some_iff.mp h
      exact some.inj h ▸
        keeps_receive [_] rfl (not_not.mp hsent) (by simp) (by simp)
  | readyToSendChanges =>
    rw [SyncCall.exec, mobilesyncReadyToSendChangesFromComputer] at h
    split at h
    · exact some.inj h ▸ keeps_refuse _
    split at h
    · exact some.inj h ▸ keeps_refuse _
    next hdirection =>
    have hreads := not_not.mp hdirection
    obtain ⟨⟨err, output⟩, -, h⟩ := bind_eq_some_iff.mp h
    dsimp only at h
    split at h
    · exact some.inj h ▸ keeps_receive [] rfl hreads (by simp) (by simp)
    split at h <;>
      exact some.inj h ▸ keeps_receive [] rfl hreads (by simp) (by simp)
  | sendChanges =>
    obtain rfl := some.inj h
    unfold mobilesyncSendChanges
    split
    · split
      · exact keeps_refuse _
      · exact ⟨rfl, by simp⟩
    · exact keeps_refuse _
  | remapIdentifiers =>
    rw [SyncCall.exec, mobilesyncRemapIdentifiers] at h
    split at h
    · exact some.inj h ▸ keeps_refuse _
    split at h
    · exact some.inj h ▸ keeps_refuse _
    next hdirection =>
    have hreads : c.direction = .computerToDevice := by
      cases hd : c.direction with
      | deviceToComputer => exact absurd hd hdirection
      | computerToDevice => rfl
    obtain ⟨⟨err, output⟩, -, h⟩ := bind_eq_some_iff.mp h
    exact some.inj h ▸ keeps_receive [] rfl hreads (by simp) (by simp)
  | rawSend plist =>
    cases plist with
    | none => exact some.inj h ▸ keeps_refuse _
    | some plist => exact some.inj h ▸ ⟨rfl, by simp⟩
  | rawReceive =>
    exact some.inj h ▸ keeps_receive [] rfl trivial (by simp) (by simp)

/-- What a step says about the session, by the client before it. -/
structure Brackets (s : SyncStep) (c : MobilesyncClient) : Prop where
  dataClass : s.result.client.dataClass.isSome ↔ s.Opens ∨ c.dataClass.isSome ∧ ¬ s.Ends
  starts : ¬ s.StartFails
  finishes : s.call = .finish → s.result.error = .success → s.Hears deviceFinishedSession

theorem brackets_refuse : Brackets ⟨call, c.refuse .invalidArg⟩ c where
  dataClass := by
    have hends : ¬ SyncStep.Ends ⟨call, c.refuse .invalidArg⟩ := by
      rintro (⟨⟨-, hacts⟩, -⟩ | ⟨reply, hmem, -⟩)
      · exact hacts rfl
      · exact absurd hmem not_mem_nil
    exact ⟨fun h => .inr ⟨h, hends⟩, fun h => h.elim (fun h => nomatch h.2) And.left⟩
  starts h := h.2.1 rfl
  finishes _ h := nomatch h

theorem brackets_end (hbounds : call.IsBoundary) (hstart : ¬ call.IsStart) (hclient : r.client = .new)
    (hacts : r.actions ≠ []) (hfinish : call = .finish → r.error = .success →
      SyncStep.Hears ⟨call, r⟩ deviceFinishedSession) : Brackets ⟨call, r⟩ c where
  dataClass := by
    have hends : SyncStep.Ends ⟨call, r⟩ := .inl ⟨⟨hbounds, hacts⟩, hstart⟩
    refine ⟨fun h => ?_, fun h => ?_⟩
    · rw [hclient] at h
      cases h
    · rcases h with h | h
      · exact absurd h.1 hstart
      · exact absurd hends h.2
  starts h := hstart h.1
  finishes := hfinish

theorem SyncCall.Fair.other (hcall : ¬ call.IsBoundary) (h : call.Fair c x) :
    c.dataClass.isSome → call.ReadsReply c x → responseType x.received ≠ some (.ok cancelSession) := by
  cases call <;> first | exact h | exact absurd trivial hcall

/-- **One step.** -/
theorem brackets_exec (hfair : call.Fair c x) (h : call.exec c x = some r) :
    Brackets ⟨call, r⟩ c := by
  by_cases hcall : call.IsBoundary
  · cases call with
    | start =>
      rcases start_cases hfair h with rfl | ⟨hok, hsome⟩
      · exact brackets_refuse
      · exact ⟨⟨fun _ => .inl ⟨trivial, hok⟩, fun _ => hsome⟩, fun hfails => hfails.2.2 hok, nofun⟩
    | finish =>
      rcases finish_cases hfair h with rfl | ⟨hclient, hacts, hears⟩
      · exact brackets_refuse
      · exact brackets_end trivial id hclient hacts fun _ => hears
    | cancel reason =>
      obtain rfl := some.inj h
      rcases cancel_cases reason with hrefused | ⟨hclient, hacts⟩
      · rw [hrefused]
        exact brackets_refuse
      · exact brackets_end trivial id hclient hacts nofun
    | _ => exact absurd hcall id
  · have hstart : ¬ call.IsStart := fun hs => hcall (by cases call <;> first | exact hs | exact hs.elim)
    obtain ⟨hclass, hreads⟩ := keeps_exec hcall h
    refine ⟨?_, fun hfails => hstart hfails.1, fun hf => ?_⟩
    · rw [hclass]
      refine ⟨fun hsome => .inr ⟨hsome, ?_⟩, fun h => h.elim (fun h => absurd h.1 hstart) And.left⟩
      rintro (⟨⟨hb, -⟩, -⟩ | ⟨reply, hmem, hresponse⟩)
      · exact hcall hb
      · obtain ⟨hread, hreceived⟩ := hreads _ _ hmem
        exact hfair.other hcall hsome hread (hreceived ▸ hresponse)
    · obtain rfl : call = .finish := hf
      exact absurd trivial hcall

end Steps

/-! ## Whole runs -/

/-- **The bracket.**  In a fair run, the data class is there exactly while a session is open, no
start that was sent has failed, and a finish succeeds only where the device has finished. -/
theorem bracketed {done : List SyncStep} {c : MobilesyncClient} (h : FairRun done c) :
    Bracketed done c := by
  induction h with
  | new =>
    refine ⟨⟨nofun, fun ⟨_, _, _, h, _⟩ => by simp at h⟩, fun s hs => ?_, fun s hs => ?_⟩
    · exact absurd hs not_mem_nil
    · exact absurd hs not_mem_nil
  | step call x _ hfair hexec ih =>
    have hstep := brackets_exec hfair hexec
    refine ⟨?_, fun s hs hfails => ?_, fun s hs hcall hok => ?_⟩
    · rw [sessionOpen_snoc, ← ih.dataClass]
      exact hstep.dataClass
    · rcases mem_append.mp hs with hs | hs
      · exact ih.starts s hs hfails
      · exact absurd (mem_singleton.mp hs ▸ hfails) hstep.starts
    · rcases mem_append.mp hs with hs | hs
      · exact ih.finishes s hs hcall hok
      · obtain rfl := mem_singleton.mp hs
        exact hstep.finishes hcall hok

/-- A session that the device agrees to and finishes. -/
theorem bracketed_run : ∃ done c, FairRun done c ∧ Bracketed done c ∧ done.length = 2 := by
  have hstart := FairRun.new.step (.plainStart "contacts")
    (.named "SDMessageSyncDataClassWithComputer")
    (fun _ _ => ⟨rfl, ⟨rfl, ⟨_, rfl, by decide +kernel, by decide +kernel⟩, nofun, nofun⟩⟩) rfl
  have hfinish := hstart.step .finish (.named "SDMessageDeviceFinishedSession")
    (fun _ _ response h => by
      have hread : responseType (SyncAnswers.named "SDMessageDeviceFinishedSession").received =
        some (.ok deviceFinishedSession) := by rfl
      exact Except.ok.inj (some.inj (h.symm.trans hread))) rfl
  exact ⟨_, _, hfinish, bracketed hfinish, rfl⟩

/-- Behind a device that refuses, the data class is there without a session, and the next start is
refused for its arguments. -/
theorem bracketed_refuted : ∃ done c, SyncRun done c ∧ ¬ Bracketed done c ∧
    ∀ x, (mobilesyncStart c (some (lit "contacts")) (some ⟨none, some (lit "anchor")⟩) 100 false false
      x).map SyncResult.error = some .invalidArg := by
  have hstart := SyncRun.new.step (.plainStart "contacts") ⟨.success, (.success, some (.array
    [newString refuseToSync, newString (lit "contacts"), newString (lit "no")])), .success⟩ rfl
  refine ⟨_, _, hstart, fun h => ?_, fun x => rfl⟩
  exact nomatch h.starts _ mem_cons_self ⟨trivial, nofun, nofun⟩

end IDeviceStack.Libimobiledevice
