/-
# `Libimobiledevice.Mobilesync` — the two directions of a sync session

`mobilesync.c`: what an operation sends and reads depends on the data class that was
started and on the direction, and changes both.

* The results of the sends and the reply of the device are arguments of a call.
* The asserts of libplist are on: a string that is not there, or has a length that is not
  its own, ends the program, and so do numbers and flags of another type.
* The client, `error_description` and `plist` are not `NULL`.

**Proved here.**  `sync_gate`, `second_start_refused`.
-/
import IDeviceStack.Libimobiledevice.Lockdown

namespace IDeviceStack.Libimobiledevice

open Libplist Libplist.Xplist

/-! ## The client -/

/-- `mobilesync_error_t`. -/
inductive MobilesyncError where
  | success | invalidArg | plistError | muxError | badVersion | syncRefused | cancelled
  | wrongDirection | notReady | unknownError
  deriving DecidableEq, Repr

/-- `mobilesync_sync_direction_t`. -/
inductive SyncDirection where
  | deviceToComputer
  | computerToDevice
  deriving DecidableEq, Repr

/-- `struct mobilesync_client_private`, but for the connection. -/
structure MobilesyncClient where
  dataClass : Option (List UInt8)
  direction : SyncDirection

/-- The client after `mobilesync_client_new`. -/
def MobilesyncClient.new : MobilesyncClient := ⟨none, .deviceToComputer⟩

/-- `mobilesync_sync_type_t`. -/
inductive SyncType where
  | fast | slow | reset
  deriving DecidableEq, Repr

/-- What a call does with the connection. -/
inductive SyncAction where
  | send (message : Plist) (err : MobilesyncError)
  /-- `device_link_service_send_ping`. -/
  | ping (err : MobilesyncError)
  | receive (err : MobilesyncError) (reply : Option Plist)

/-- What happens to the sends of a call, and what the device replies. -/
structure SyncAnswers where
  sent : MobilesyncError
  received : MobilesyncError × Option Plist
  pinged : MobilesyncError

/-- What a call leaves in the places that it is given. -/
inductive SyncOutput where
  | none
  | started (syncType : Option SyncType) (deviceDataClassVersion : Option UInt64)
      (errorDescription : Option (List UInt8))
  | changes (entities : Option Plist) (isLastRecord : Option UInt8) (actions : Option Plist)
  | mapping (mapping : Option Plist)
  | plist (plist : Option Plist)

/-- The end of a call. -/
structure SyncResult where
  error : MobilesyncError
  client : MobilesyncClient
  actions : List SyncAction
  output : SyncOutput

/-! ## Reading a reply -/

/-- `plist_array_get_item`. -/
def arrayGetItem (node : Option Plist) (n : Nat) : Option Plist :=
  match node with
  | some (.array children) => children[n]?
  | _ => none

/-- `plist_get_string_val`; `none` where it ends the program. -/
def getStringVal : Option Plist → Option (List UInt8)
  | some (.scalar (.string s) length) => if length = strlen s then some (cstr s) else none
  | _ => none

/-- `plist_get_bool_val`. -/
def getBoolVal : Option Plist → Option UInt8
  | some (.scalar (.boolean b) length) => if length = 1 then some b else none
  | _ => none

/-- `plist_get_uint_val`. -/
def getUintVal : Option Plist → Option UInt64
  | some (.scalar (.uint v) length) => if length = 8 ∨ length = 16 then some v else none
  | _ => none

/-- The node, if it is a dictionary. -/
def dictOnly : Option Plist → Option Plist
  | some (.dict children) => some (.dict children)
  | _ => none

/-- What all operations do with a reply: an error, or its first item. -/
def responseType : MobilesyncError × Option Plist → Option (Except MobilesyncError (List UInt8))
  | (.success, msg) =>
    match arrayGetItem msg 0 with
    | none => some (.error .plistError)
    | some node => (getStringVal (some node)).map .ok
  | (err, _) => some (.error err)

theorem responseType_cases (received : MobilesyncError × Option Plist) :
    (received.1 = .success ∧ ∀ err, responseType received = some (.error err) → err = .plistError) ∨
      responseType received = some (.error received.1) ∧ received.1 ≠ .success := by
  obtain ⟨err, msg⟩ := received
  cases err with
  | success =>
    refine .inl ⟨rfl, fun err h => ?_⟩
    rw [responseType] at h
    split at h
    · cases h
      rfl
    · obtain ⟨s, -, hs⟩ := Option.map_eq_some_iff.mp h
      cases hs
  | _ => exact .inr ⟨rfl, nofun⟩

def EMPTY_PARAMETER_STRING : List UInt8 := lit "___EmptyParameterString___"

def cancelSession : List UInt8 := lit "SDMessageCancelSession"
def processChanges : List UInt8 := lit "SDMessageProcessChanges"
def deviceReadyToReceiveChanges : List UInt8 := lit "SDMessageDeviceReadyToReceiveChanges"

/-- A message: its name, the data class, and what follows. -/
def syncMessage (name dataClass : List UInt8) (rest : List Plist) : Plist :=
  .array (newString name :: newString dataClass :: rest)

/-! ## Operations -/

/-- A call that is refused for its arguments. -/
def MobilesyncClient.refuse (c : MobilesyncClient) (err : MobilesyncError) : SyncResult :=
  ⟨err, c, [], .none⟩

/-- `mobilesync_anchors`. -/
structure SyncAnchors where
  deviceAnchor : Option (List UInt8)
  computerAnchor : Option (List UInt8)

/-- The request of `mobilesync_start`. -/
def startMessage (dataClass : List UInt8) (deviceAnchor : Option (List UInt8))
    (computerAnchor : List UInt8) (version : UInt64) : Plist :=
  syncMessage (lit "SDMessageSyncDataClassWithDevice") dataClass
    [newString (deviceAnchor.getD (lit "---")), newString computerAnchor,
      .scalar (.uint version) 8, newString EMPTY_PARAMETER_STRING]

/-- The type of the sync in a reply to `mobilesync_start`. -/
def readSyncType (msg : Option Plist) : Option (Except MobilesyncError SyncType) :=
  match arrayGetItem msg 4 with
  | none => some (.error .plistError)
  | some node => do
      let s ← getStringVal (some node)
      if s = lit "SDSyncTypeFast" then pure (.ok .fast)
      else if s = lit "SDSyncTypeSlow" then pure (.ok .slow)
      else if s = lit "SDSyncTypeReset" then pure (.ok .reset)
      else pure (.error .plistError)

/-- `if (sync_type != NULL) …`. -/
def wantedSyncType (wanted : Bool) (msg : Option Plist) :
    Option (Except MobilesyncError (Option SyncType)) :=
  if wanted then (readSyncType msg).map (Except.map some) else some (.ok none)

/-- `if (device_data_class_version != NULL) …`. -/
def wantedVersion (wanted : Bool) (msg : Option Plist) :
    Option (Except MobilesyncError (Option UInt64)) :=
  if wanted then
    match arrayGetItem msg 5 with
    | none => some (.error .plistError)
    | some node => (getUintVal (some node)).map fun v => .ok (some v)
  else some (.ok none)

/-- `mobilesync_start`, behind the send: the result and what was read. -/
def readStarted (wantsType wantsVersion : Bool) (received : MobilesyncError × Option Plist) :
    Option (MobilesyncError × SyncOutput) := do
  match ← responseType received with
  | .error err => pure (err, .started none none none)
  | .ok response =>
    if response = lit "SDMessageRefuseToSyncDataClassWithComputer" then do
      let description ← getStringVal (arrayGetItem received.2 2)
      pure (.syncRefused, .started none none (some description))
    else if response = cancelSession then do
      let description ← getStringVal (arrayGetItem received.2 2)
      pure (.cancelled, .started none none (some description))
    else
      match ← wantedSyncType wantsType received.2 with
      | .error err => pure (err, .started none none none)
      | .ok syncType =>
        match ← wantedVersion wantsVersion received.2 with
        | .error err => pure (err, .started syncType none none)
        | .ok version => pure (.success, .started syncType version none)

/-- `mobilesync_start`.  The data class is noted also where the device did not agree. -/
def mobilesyncStart (c : MobilesyncClient) (dataClass : Option (List UInt8))
    (anchors : Option SyncAnchors) (version : UInt64) (wantsType wantsVersion : Bool)
    (x : SyncAnswers) : Option SyncResult :=
  match c.dataClass, dataClass, anchors.bind SyncAnchors.computerAnchor with
  | none, some dataClass, some computerAnchor =>
    let message := startMessage dataClass (anchors.bind SyncAnchors.deviceAnchor) computerAnchor
      version
    let after : MobilesyncClient := ⟨some dataClass, .deviceToComputer⟩
    if x.sent ≠ .success then
      some ⟨x.sent, after, [.send message x.sent], .started none none none⟩
    else do
      let (err, output) ← readStarted wantsType wantsVersion x.received
      pure ⟨err, after, [.send message x.sent, .receive x.received.1 x.received.2], output⟩
  | _, _, _ => some (c.refuse .invalidArg)

/-- What `mobilesync_finish` makes of a reply. -/
def readFinished (received : MobilesyncError × Option Plist) : Option MobilesyncError := do
  match ← responseType received with
  | .error err => pure err
  | .ok _ => pure .success

/-- `mobilesync_finish`.  A reply of another type leaves `err` as it is, which is success. -/
def mobilesyncFinish (c : MobilesyncClient) (x : SyncAnswers) : Option SyncResult :=
  match c.dataClass with
  | none => some (c.refuse .invalidArg)
  | some dataClass =>
    let message := syncMessage (lit "SDMessageFinishSessionOnDevice") dataClass []
    if x.sent ≠ .success then some ⟨x.sent, .new, [.send message x.sent], .none⟩
    else do
      let err ← readFinished x.received
      pure ⟨err, .new, [.send message x.sent, .receive x.received.1 x.received.2], .none⟩

/-- A message without a reply. -/
def sendOnly (c : MobilesyncClient) (message : List UInt8 → Plist) (x : SyncAnswers) : SyncResult :=
  match c.dataClass with
  | none => c.refuse .invalidArg
  | some dataClass => ⟨x.sent, c, [.send (message dataClass) x.sent], .none⟩

def mobilesyncGetRecords (c : MobilesyncClient) (operation : List UInt8) (x : SyncAnswers) :
    SyncResult := sendOnly c (syncMessage operation · []) x

def mobilesyncGetAllRecordsFromDevice (c : MobilesyncClient) (x : SyncAnswers) : SyncResult :=
  mobilesyncGetRecords c (lit "SDMessageGetAllRecordsFromDevice") x

def mobilesyncGetChangesFromDevice (c : MobilesyncClient) (x : SyncAnswers) : SyncResult :=
  mobilesyncGetRecords c (lit "SDMessageGetChangesFromDevice") x

def mobilesyncAcknowledgeChangesFromDevice (c : MobilesyncClient) (x : SyncAnswers) : SyncResult :=
  sendOnly c (syncMessage (lit "SDMessageAcknowledgeChangesFromDevice") · []) x

/-- A reply that is no cancellation goes on as `next`. -/
def unlessCancelled (received : MobilesyncError × Option Plist)
    (next : List UInt8 → Option (MobilesyncError × SyncOutput)) :
    Option (MobilesyncError × SyncOutput) := do
  match ← responseType received with
  | .error err => pure (err, .none)
  | .ok response =>
    if response = cancelSession then do
      let _ ← getStringVal (arrayGetItem received.2 2)
      pure (.cancelled, .none)
    else next response

theorem unlessCancelled_success {received : MobilesyncError × Option Plist} {output : SyncOutput}
    {next : List UInt8 → Option (MobilesyncError × SyncOutput)}
    (h : unlessCancelled received next = some (.success, output)) :
    ∃ response, received.1 = .success ∧ responseType received = some (.ok response) ∧
      next response = some (.success, output) := by
  obtain ⟨read, hread, h⟩ := Option.bind_eq_some_iff.mp h
  rcases responseType_cases received with ⟨hok, herr⟩ | ⟨herr, hne⟩
  · cases read with
    | error err =>
      obtain rfl := herr err hread
      cases h
    | ok response =>
      dsimp only at h
      split at h
      · obtain ⟨_, -, h⟩ := Option.bind_eq_some_iff.mp h
        cases h
      · exact ⟨response, hok, hread, h⟩
  · rw [herr] at hread
    obtain rfl := Option.some.inj hread
    exact absurd (congrArg Prod.fst (Option.some.inj h)) hne

/-- The changes in a reply, as far as they are wanted. -/
def readChanges (wantsEntities wantsLast wantsActions : Bool) (msg : Option Plist) :
    Option (MobilesyncError × SyncOutput) := do
  let entities := if wantsEntities then arrayGetItem msg 2 else none
  let isLast ← if wantsLast then do
      let more ← getBoolVal (arrayGetItem msg 3)
      pure (some (if more > 0 then 0 else 1))
    else pure none
  let actions := if wantsActions then dictOnly (arrayGetItem msg 4) else none
  pure (.success, .changes entities isLast actions)

def mobilesyncReceiveChanges (c : MobilesyncClient) (wantsEntities wantsLast wantsActions : Bool)
    (x : SyncAnswers) : Option SyncResult :=
  if c.dataClass.isNone then some (c.refuse .invalidArg)
  else do
    let (err, output) ← unlessCancelled x.received fun _ =>
      readChanges wantsEntities wantsLast wantsActions x.received.2
    pure ⟨err, c, [.receive x.received.1 x.received.2], output⟩

def mobilesyncClearAllRecordsOnDevice (c : MobilesyncClient) (x : SyncAnswers) :
    Option SyncResult :=
  match c.dataClass with
  | none => some (c.refuse .invalidArg)
  | some dataClass =>
    let message := syncMessage (lit "SDMessageClearAllRecordsOnDevice") dataClass
      [newString EMPTY_PARAMETER_STRING]
    if x.sent ≠ .success then some ⟨x.sent, c, [.send message x.sent], .none⟩
    else do
      let (err, output) ← unlessCancelled x.received fun response =>
        some (if response = lit "SDMessageDeviceWillClearAllRecords" then .success
          else .plistError, .none)
      pure ⟨err, c, [.send message x.sent, .receive x.received.1 x.received.2], output⟩

/-- `mobilesync_ready_to_send_changes_from_computer`: the direction changes where the device is ready
and the ping gets through. -/
def mobilesyncReadyToSendChangesFromComputer (c : MobilesyncClient) (x : SyncAnswers) :
    Option SyncResult :=
  if c.dataClass.isNone then some (c.refuse .invalidArg)
  else if c.direction ≠ .deviceToComputer then some (c.refuse .wrongDirection)
  else do
    let (err, _) ← unlessCancelled x.received fun response =>
      some (if response = deviceReadyToReceiveChanges then .success else .notReady, .none)
    let receive := SyncAction.receive x.received.1 x.received.2
    if err ≠ .success then pure ⟨err, c, [receive], .none⟩
    else if x.pinged ≠ .success then pure ⟨x.pinged, c, [receive, .ping x.pinged], .none⟩
    else pure ⟨.success, { c with direction := .computerToDevice }, [receive, .ping x.pinged], .none⟩

def createProcessChangesMessage (dataClass : List UInt8) (entities : Plist) (moreChanges : UInt8)
    (actions : Option Plist) : Plist :=
  syncMessage processChanges dataClass
    [entities, .scalar (.boolean moreChanges) 1, actions.getD (newString EMPTY_PARAMETER_STRING)]

def mobilesyncSendChanges (c : MobilesyncClient) (entities : Option Plist) (isLastRecord : UInt8)
    (actions : Option Plist) (x : SyncAnswers) : SyncResult :=
  match c.dataClass, dictOnly entities with
  | some dataClass, some entities =>
    if c.direction ≠ .computerToDevice then c.refuse .wrongDirection
    else
      let message := createProcessChangesMessage dataClass entities
        (if isLastRecord > 0 then 0 else 1) actions
      ⟨x.sent, c, [.send message x.sent], .none⟩
  | _, _ => c.refuse .invalidArg

def mobilesyncRemapIdentifiers (c : MobilesyncClient) (wantsMapping : Bool) (x : SyncAnswers) :
    Option SyncResult :=
  if c.dataClass.isNone then some (c.refuse .invalidArg)
  else if c.direction = .deviceToComputer then some (c.refuse .wrongDirection)
  else do
    let (err, output) ← unlessCancelled x.received fun response =>
      some (if response ≠ lit "SDMessageRemapRecordIdentifiers" then (.plistError, .none)
        else (.success,
          .mapping (if wantsMapping then dictOnly (arrayGetItem x.received.2 2) else none)))
    pure ⟨err, c, [.receive x.received.1 x.received.2], output⟩

def mobilesyncCancel (c : MobilesyncClient) (reason : Option (List UInt8)) (x : SyncAnswers) :
    SyncResult :=
  match c.dataClass, reason with
  | some dataClass, some reason =>
    ⟨x.sent, .new, [.send (syncMessage cancelSession dataClass [newString reason]) x.sent], .none⟩
  | _, _ => c.refuse .invalidArg

/-! ## Runs -/

inductive SyncCall where
  | start (dataClass : Option (List UInt8)) (anchors : Option SyncAnchors) (version : UInt64)
      (wantsType wantsVersion : Bool)
  | finish
  | getAllRecords
  | getChanges
  | receiveChanges (wantsEntities wantsLast wantsActions : Bool)
  | clearAllRecords
  | acknowledgeChanges
  | readyToSendChanges
  | sendChanges (entities : Option Plist) (isLastRecord : UInt8) (actions : Option Plist)
  | remapIdentifiers (wantsMapping : Bool)
  | cancel (reason : Option (List UInt8))
  /-- `mobilesync_send`, which is for messages that the library does not know. -/
  | rawSend (plist : Option Plist)
  /-- `mobilesync_receive`. -/
  | rawReceive

/-- A call; `none` where libplist ends the program. -/
def SyncCall.exec (c : MobilesyncClient) (x : SyncAnswers) : SyncCall → Option SyncResult
  | .start dataClass anchors version wantsType wantsVersion =>
    mobilesyncStart c dataClass anchors version wantsType wantsVersion x
  | .finish => mobilesyncFinish c x
  | .getAllRecords => some (mobilesyncGetAllRecordsFromDevice c x)
  | .getChanges => some (mobilesyncGetChangesFromDevice c x)
  | .receiveChanges wantsEntities wantsLast wantsActions =>
    mobilesyncReceiveChanges c wantsEntities wantsLast wantsActions x
  | .clearAllRecords => mobilesyncClearAllRecordsOnDevice c x
  | .acknowledgeChanges => some (mobilesyncAcknowledgeChangesFromDevice c x)
  | .readyToSendChanges => mobilesyncReadyToSendChangesFromComputer c x
  | .sendChanges entities isLastRecord actions =>
    some (mobilesyncSendChanges c entities isLastRecord actions x)
  | .remapIdentifiers wantsMapping => mobilesyncRemapIdentifiers c wantsMapping x
  | .cancel reason => some (mobilesyncCancel c reason x)
  | .rawSend none => some (c.refuse .invalidArg)
  | .rawSend (some plist) => some ⟨x.sent, c, [.send plist x.sent], .none⟩
  | .rawReceive =>
    some ⟨x.received.1, c, [.receive x.received.1 x.received.2], .plist x.received.2⟩

/-- A call that has come to its end. -/
structure SyncStep where
  call : SyncCall
  result : SyncResult

/-- The calls of a client, from the first one on, and the client after them. -/
inductive SyncRun : List SyncStep → MobilesyncClient → Prop
  | new : SyncRun [] .new
  | step {done : List SyncStep} {c : MobilesyncClient} {r : SyncResult} (call : SyncCall)
      (x : SyncAnswers) : SyncRun done c → call.exec c x = some r →
      SyncRun (done ++ [⟨call, r⟩]) r.client

/-! ## What a step does -/

/-- The message is a `SDMessageProcessChanges`. -/
def IsProcessChanges (message : Plist) : Prop :=
  arrayGetItem (some message) 0 = some (newString processChanges)

/-- The message names this data class. -/
def NamesClass (message : Plist) (dataClass : List UInt8) : Prop :=
  arrayGetItem (some message) 1 = some (newString dataClass)

/-- The operations that begin or end a session. -/
def SyncCall.IsBoundary : SyncCall → Prop
  | .start _ _ _ _ _ | .finish | .cancel _ => True
  | _ => False

def SyncCall.IsRawSend : SyncCall → Prop
  | .rawSend _ => True
  | _ => False

namespace SyncStep

/-- A start, finish or cancel that has sent its message. -/
def Bounds (s : SyncStep) : Prop := s.call.IsBoundary ∧ s.result.actions ≠ []

/-- The data class of a start that has sent its message. -/
def startedClass (s : SyncStep) : Option (List UInt8) :=
  match s.call, s.result.actions with
  | .start dataClass _ _ _ _, _ :: _ => dataClass
  | _, _ => none

/-- The device was ready to receive changes. -/
def IsReady (s : SyncStep) : Prop :=
  s.call = .readyToSendChanges ∧ ∃ reply, SyncAction.receive .success reply ∈ s.result.actions ∧
    responseType (.success, reply) = some (.ok deviceReadyToReceiveChanges)

/-- The class that messages of this step are to name, where `before` was started before. -/
def Current (s : SyncStep) (before : Option (List UInt8)) (dataClass : List UInt8) : Prop :=
  s.startedClass = some dataClass ∨ s.startedClass = none ∧ before = some dataClass

/-- What a step says about the client before it and after it. -/
structure Follows (s : SyncStep) (c : MobilesyncClient) : Prop where
  direction : s.result.client.direction = .computerToDevice →
    s.IsReady ∨ c.direction = .computerToDevice ∧ ¬ s.Bounds
  dataClass : ∀ {d}, s.result.client.dataClass = some d → s.Current c.dataClass d
  sends : ¬ s.call.IsRawSend → ∀ {message err}, SyncAction.send message err ∈ s.result.actions →
    (IsProcessChanges message → c.direction = .computerToDevice) ∧
    ∃ d, NamesClass message d ∧ s.Current c.dataClass d
  remaps : ∀ {wantsMapping}, s.call = .remapIdentifiers wantsMapping → s.result.actions ≠ [] →
    c.direction = .computerToDevice

end SyncStep

section Steps

variable {c : MobilesyncClient} {x : SyncAnswers} {call : SyncCall} {r : SyncResult}

theorem follows_quiet (hclient : r.client = c) (hbounds : ¬ call.IsBoundary)
    (hsends : ∀ message err, SyncAction.send message err ∉ r.actions)
    (hremaps : ∀ {wantsMapping}, call = .remapIdentifiers wantsMapping → r.actions ≠ [] →
      c.direction = .computerToDevice) : SyncStep.Follows ⟨call, r⟩ c where
  direction h := .inr ⟨hclient ▸ h, fun hb => hbounds hb.1⟩
  dataClass h := .inr ⟨by cases call <;> first | rfl | exact absurd trivial hbounds, hclient ▸ h⟩
  sends _ _ _ h := absurd h (hsends _ _)
  remaps := hremaps

theorem follows_refuse (err : MobilesyncError) : SyncStep.Follows ⟨call, c.refuse err⟩ c where
  direction h := .inr ⟨h, fun hb => hb.2 rfl⟩
  dataClass h := .inr ⟨by cases call <;> rfl, h⟩
  sends _ _ _ h := absurd h List.not_mem_nil
  remaps _ h := absurd rfl h

theorem isProcessChanges_syncMessage {name dataClass : List UInt8} {rest : List Plist}
    (h : IsProcessChanges (syncMessage name dataClass rest)) : name = processChanges := by
  have hname : newString name = newString processChanges := Option.some.inj h
  injection hname with hvalue
  injection hvalue

theorem eq_of_send_mem {actions after : List SyncAction} {m m' : Plist} {err err' : MobilesyncError}
    (hfirst : actions = .send m err :: after) (hafter : ∀ m e, SyncAction.send m e ∉ after)
    (h : SyncAction.send m' err' ∈ actions) : m' = m := by
  rw [hfirst] at h
  rcases List.mem_cons.mp h with h | h
  · cases h
    rfl
  · exact absurd h (hafter _ _)

theorem follows_message {name dataClass : List UInt8} {rest : List Plist} {err : MobilesyncError}
    {after : List SyncAction} (hclass : c.dataClass = some dataClass) (hclient : r.client = c)
    (hbounds : ¬ call.IsBoundary)
    (hfirst : r.actions = .send (syncMessage name dataClass rest) err :: after)
    (hafter : ∀ m e, SyncAction.send m e ∉ after)
    (hname : name = processChanges → c.direction = .computerToDevice)
    (hremap : ∀ wantsMapping, call ≠ .remapIdentifiers wantsMapping) :
    SyncStep.Follows ⟨call, r⟩ c where
  direction h := .inr ⟨hclient ▸ h, fun hb => hbounds hb.1⟩
  dataClass h := .inr ⟨by cases call <;> first | rfl | exact absurd trivial hbounds, hclient ▸ h⟩
  sends _ message err h := by
    obtain rfl := eq_of_send_mem hfirst hafter h
    refine ⟨fun hp => hname (isProcessChanges_syncMessage hp), dataClass, rfl, .inr ⟨?_, hclass⟩⟩
    cases call <;> first | rfl | exact absurd trivial hbounds
  remaps h := absurd h (hremap _)

theorem follows_end {name dataClass : List UInt8} {rest : List Plist} {err : MobilesyncError}
    {after : List SyncAction} (hclass : c.dataClass = some dataClass) (hclient : r.client = .new)
    (hcall : call = .finish ∨ ∃ reason, call = .cancel reason)
    (hfirst : r.actions = .send (syncMessage name dataClass rest) err :: after)
    (hafter : ∀ m e, SyncAction.send m e ∉ after)
    (hname : name ≠ processChanges) : SyncStep.Follows ⟨call, r⟩ c where
  direction h := by
    rw [hclient] at h
    cases h
  dataClass h := by
    rw [hclient] at h
    cases h
  sends _ message err h := by
    obtain rfl := eq_of_send_mem hfirst hafter h
    refine ⟨fun hp => absurd (isProcessChanges_syncMessage hp) hname, dataClass, rfl,
      .inr ⟨?_, hclass⟩⟩
    rcases hcall with rfl | ⟨reason, rfl⟩ <;> rfl
  remaps h := by
    rcases hcall with rfl | ⟨reason, rfl⟩ <;> cases h

theorem follows_start {dataClass : Option (List UInt8)} {anchors : Option SyncAnchors}
    {version : UInt64} {wantsType wantsVersion : Bool}
    (h : mobilesyncStart c dataClass anchors version wantsType wantsVersion x = some r) :
    SyncStep.Follows ⟨.start dataClass anchors version wantsType wantsVersion, r⟩ c := by
  unfold mobilesyncStart at h
  split at h
  · next dataClass computerAnchor hclass _ =>
    -- the message is sent in any case, and the client is the same
    generalize hmessage : startMessage dataClass (anchors.bind SyncAnchors.deviceAnchor)
      computerAnchor version = message at h
    have hall : r.client = ⟨some dataClass, .deviceToComputer⟩ ∧
        (∀ m err, SyncAction.send m err ∈ r.actions → m = message) ∧ r.actions ≠ [] := by
      dsimp only at h
      split at h
      · obtain rfl := Option.some.inj h
        simp
      · obtain ⟨⟨err, output⟩, -, h⟩ := Option.bind_eq_some_iff.mp h
        obtain rfl := Option.some.inj h
        simp
    obtain ⟨hclient, hsends, hacts⟩ := hall
    have hstarted : SyncStep.startedClass
        ⟨.start (some dataClass) anchors version wantsType wantsVersion, r⟩ = some dataClass := by
      cases hactions : r.actions with
      | nil => exact absurd hactions hacts
      | cons action actions => simp [SyncStep.startedClass, hactions]
    refine ⟨fun hd => ?_, fun hd => ?_, fun _ m err hm => ?_, nofun⟩
    · rw [hclient] at hd
      cases hd
    · rw [hclient] at hd
      cases hd
      exact .inl hstarted
    · rw [hsends m err hm, ← hmessage]
      refine ⟨fun hp => absurd (isProcessChanges_syncMessage hp) (by decide), dataClass, rfl, ?_⟩
      exact .inl hstarted
  · obtain rfl := Option.some.inj h
    exact follows_refuse _

theorem follows_ready (h : mobilesyncReadyToSendChangesFromComputer c x = some r) :
    SyncStep.Follows ⟨.readyToSendChanges, r⟩ c := by
  unfold mobilesyncReadyToSendChangesFromComputer at h
  split at h
  · obtain rfl := Option.some.inj h
    exact follows_refuse _
  split at h
  · obtain rfl := Option.some.inj h
    exact follows_refuse _
  obtain ⟨⟨err, output⟩, hread, h⟩ := Option.bind_eq_some_iff.mp h
  dsimp only at h
  split at h
  · obtain rfl := Option.some.inj h
    exact follows_quiet rfl id (by simp) nofun
  split at h
  · obtain rfl := Option.some.inj h
    exact follows_quiet rfl id (by simp) nofun
  next hok _ =>
  obtain rfl := Option.some.inj h
  obtain rfl := not_not.mp hok
  obtain ⟨response, hreceived, htype, hnext⟩ := unlessCancelled_success hread
  refine ⟨fun _ => .inl ⟨rfl, x.received.2, ?_, ?_⟩, fun hd => .inr ⟨rfl, hd⟩, fun _ m err hm => ?_,
    nofun⟩
  · simp [hreceived]
  · have hready : response = deviceReadyToReceiveChanges := by
      by_contra hne
      rw [if_neg hne] at hnext
      cases hnext
    rw [← hreceived, ← hready]
    exact htype
  · simp at hm

theorem follows_sendOnly {name : List UInt8} (hbounds : ¬ call.IsBoundary)
    (hremap : ∀ wantsMapping, call ≠ .remapIdentifiers wantsMapping) (hname : name ≠ processChanges)
    (h : some (sendOnly c (syncMessage name · []) x) = some r) : SyncStep.Follows ⟨call, r⟩ c := by
  obtain rfl := Option.some.inj h
  unfold sendOnly
  split
  · exact follows_refuse _
  · next dataClass hclass =>
    exact follows_message hclass rfl hbounds rfl (fun _ _ => List.not_mem_nil) (fun h => absurd h hname) hremap

/-- **One step.** -/
theorem follows_exec (h : call.exec c x = some r) : SyncStep.Follows ⟨call, r⟩ c := by
  cases call with
  | start dataClass anchors version wantsType wantsVersion => exact follows_start h
  | finish =>
    rw [SyncCall.exec, mobilesyncFinish] at h
    split at h
    · obtain rfl := Option.some.inj h
      exact follows_refuse _
    next dataClass hclass =>
    dsimp only at h
    split at h
    · obtain rfl := Option.some.inj h
      exact follows_end hclass rfl (.inl rfl) rfl (by simp) (by decide)
    · obtain ⟨err, -, h⟩ := Option.bind_eq_some_iff.mp h
      obtain rfl := Option.some.inj h
      exact follows_end hclass rfl (.inl rfl) rfl (by simp) (by decide)
  | getAllRecords => exact follows_sendOnly id (by simp) (by decide) h
  | getChanges => exact follows_sendOnly id (by simp) (by decide) h
  | acknowledgeChanges => exact follows_sendOnly id (by simp) (by decide) h
  | receiveChanges wantsEntities wantsLast wantsActions =>
    rw [SyncCall.exec, mobilesyncReceiveChanges] at h
    split at h
    · obtain rfl := Option.some.inj h
      exact follows_refuse _
    · obtain ⟨⟨err, output⟩, -, h⟩ := Option.bind_eq_some_iff.mp h
      obtain rfl := Option.some.inj h
      exact follows_quiet rfl id (by simp) (by simp)
  | clearAllRecords =>
    rw [SyncCall.exec, mobilesyncClearAllRecordsOnDevice] at h
    split at h
    · obtain rfl := Option.some.inj h
      exact follows_refuse _
    next dataClass hclass =>
    dsimp only at h
    split at h
    · obtain rfl := Option.some.inj h
      exact follows_message hclass rfl id rfl (by simp) (fun h => absurd h (by decide)) (by simp)
    · obtain ⟨⟨err, output⟩, -, h⟩ := Option.bind_eq_some_iff.mp h
      obtain rfl := Option.some.inj h
      exact follows_message hclass rfl id rfl (by simp) (fun h => absurd h (by decide)) (by simp)
  | readyToSendChanges => exact follows_ready h
  | sendChanges entities isLastRecord actions =>
    obtain rfl := Option.some.inj h
    unfold mobilesyncSendChanges
    split
    · next dataClass entities hclass _ =>
      split
      · exact follows_refuse _
      · next hdirection =>
        exact follows_message hclass rfl id rfl (by simp) (fun _ => not_not.mp hdirection) (by simp)
    · exact follows_refuse _
  | remapIdentifiers wantsMapping =>
    rw [SyncCall.exec, mobilesyncRemapIdentifiers] at h
    split at h
    · obtain rfl := Option.some.inj h
      exact follows_refuse _
    split at h
    · obtain rfl := Option.some.inj h
      exact follows_refuse _
    next hdirection =>
    obtain ⟨⟨err, output⟩, -, h⟩ := Option.bind_eq_some_iff.mp h
    obtain rfl := Option.some.inj h
    refine follows_quiet rfl id (by simp) fun _ _ => ?_
    cases hd : c.direction with
    | deviceToComputer => exact absurd hd hdirection
    | computerToDevice => rfl
  | cancel reason =>
    obtain rfl := Option.some.inj h
    unfold mobilesyncCancel
    split
    · next dataClass reason hclass =>
      exact follows_end hclass rfl (.inr ⟨_, rfl⟩) rfl (by simp) (by decide)
    · exact follows_refuse _
  | rawSend plist =>
    cases plist with
    | none =>
      obtain rfl := Option.some.inj h
      exact follows_refuse _
    | some plist =>
      obtain rfl := Option.some.inj h
      exact ⟨fun hd => .inr ⟨hd, fun hb => hb.1⟩, fun hd => .inr ⟨rfl, hd⟩,
        fun hraw => absurd trivial hraw, by simp⟩
  | rawReceive =>
    obtain rfl := Option.some.inj h
    exact follows_quiet rfl id (by simp) (by simp)

end Steps

/-! ## Whole runs -/

/-- The device was ready, and no session has begun or ended since. -/
def Permitted (done : List SyncStep) : Prop :=
  ∃ before ready after, done = before ++ ready :: after ∧ ready.IsReady ∧ ∀ s ∈ after, ¬ s.Bounds

/-- The data class of the last start. -/
def lastStarted (done : List SyncStep) : Option (List UInt8) :=
  (done.filterMap SyncStep.startedClass).getLast?

/-- What a step may send and read behind the steps `done`. -/
structure SyncStep.Lawful (s : SyncStep) (done : List SyncStep) : Prop where
  sends : ¬ s.call.IsRawSend → ∀ {message err}, SyncAction.send message err ∈ s.result.actions →
    (IsProcessChanges message → Permitted done) ∧
    ∃ d, lastStarted (done ++ [s]) = some d ∧ NamesClass message d
  remaps : ∀ {wantsMapping}, s.call = .remapIdentifiers wantsMapping → s.result.actions ≠ [] →
    Permitted done

section Runs

variable {done steps : List SyncStep} {c : MobilesyncClient} {s : SyncStep}

theorem Permitted.snoc (h : Permitted done) (hs : ¬ s.Bounds) : Permitted (done ++ [s]) := by
  obtain ⟨before, ready, after, rfl, hready, hafter⟩ := h
  refine ⟨before, ready, after ++ [s], by simp, hready, fun t ht => ?_⟩
  rcases List.mem_append.mp ht with ht | ht
  · exact hafter t ht
  · rw [List.mem_singleton.mp ht]
    exact hs

theorem permitted_of_ready (h : s.IsReady) : Permitted (done ++ [s]) :=
  ⟨done, s, [], rfl, h, fun _ ht => absurd ht List.not_mem_nil⟩

theorem lastStarted_snoc {d : List UInt8} (h : s.Current (lastStarted done) d) :
    lastStarted (done ++ [s]) = some d := by
  rcases h with h | ⟨h, hd⟩
  · simp [lastStarted, h]
  · simpa [lastStarted, h] using hd

/-- The client knows what was started, and its direction what was permitted. -/
structure SyncInv (done : List SyncStep) (c : MobilesyncClient) : Prop where
  direction : c.direction = .computerToDevice → Permitted done
  dataClass : ∀ {d}, c.dataClass = some d → lastStarted done = some d

theorem SyncStep.Current.of_inv (h : SyncInv done c) {d : List UInt8} (hd : s.Current c.dataClass d) :
    s.Current (lastStarted done) d := by
  rcases hd with hd | ⟨hnone, hd⟩
  · exact .inl hd
  · exact .inr ⟨hnone, h.dataClass hd⟩

theorem SyncInv.step (h : SyncInv done c) (hs : s.Follows c) :
    SyncInv (done ++ [s]) s.result.client := by
  refine ⟨fun hd => ?_, fun hd => lastStarted_snoc ((hs.dataClass hd).of_inv h)⟩
  rcases hs.direction hd with hready | ⟨hc, hbounds⟩
  · exact permitted_of_ready hready
  · exact (h.direction hc).snoc hbounds

theorem SyncRun.inv (h : SyncRun steps c) : SyncInv steps c := by
  induction h with
  | new => exact ⟨nofun, nofun⟩
  | step call x _ hexec ih => exact ih.step (follows_exec hexec)

theorem SyncRun.split {pre post : List SyncStep} (h : SyncRun steps c)
    (hsteps : steps = pre ++ s :: post) : ∃ c', SyncRun pre c' ∧ s.Follows c' := by
  induction h generalizing post with
  | new => exact absurd hsteps (by simp)
  | step call x hrun hexec ih =>
    rcases List.eq_nil_or_concat post with rfl | ⟨post, last, rfl⟩
    · obtain ⟨rfl, hs⟩ := List.append_inj' hsteps rfl
      obtain rfl := List.singleton_inj.mp hs
      exact ⟨_, hrun, follows_exec hexec⟩
    · rw [List.concat_eq_append, ← List.cons_append, ← List.append_assoc] at hsteps
      exact ih (List.append_inj' hsteps rfl).1

/-- **The gate.**  In every run, what is sent as `SDMessageProcessChanges` and what is read as new
identifiers stands behind a device that was ready, with no session begun or ended in between; and
messages name the data class of the last start. -/
theorem sync_gate {pre post : List SyncStep} (h : SyncRun steps c)
    (hsteps : steps = pre ++ s :: post) : s.Lawful pre := by
  obtain ⟨c', hrun, hs⟩ := h.split hsteps
  have hinv := hrun.inv
  refine ⟨fun hraw message err hsend => ?_, fun hcall hacts => hinv.direction (hs.remaps hcall hacts)⟩
  obtain ⟨hprocess, d, hnames, hd⟩ := hs.sends hraw hsend
  exact ⟨fun hp => hinv.direction (hprocess hp), d, lastStarted_snoc (hd.of_inv hinv), hnames⟩

end Runs

/-! ### Runs where the device agrees -/

/-- Answers where every send succeeds and the reply is only a name. -/
def SyncAnswers.named (name : String) : SyncAnswers :=
  ⟨.success, (.success, some (.array [newString (lit name)])), .success⟩

/-- A start that asks for nothing. -/
def SyncCall.plainStart (dataClass : String) : SyncCall :=
  .start (some (lit dataClass)) (some ⟨none, some (lit "anchor")⟩) 100 false false

/-- The changes of an empty dictionary. -/
def SyncCall.plainChanges : SyncCall := .sendChanges (some (.dict [])) 1 none

/-- The changes are sent after a start and a reply of a device that is ready. -/
theorem sync_gate_run : ∃ pre s c, SyncRun (pre ++ [s]) c ∧ s.Lawful pre ∧
    ∃ message err, SyncAction.send message err ∈ s.result.actions ∧ IsProcessChanges message ∧
      NamesClass message (lit "contacts") := by
  have hstart := SyncRun.new.step (.plainStart "contacts")
    (.named "SDMessageSyncDataClassWithComputer") rfl
  have hready := hstart.step .readyToSendChanges
    (.named "SDMessageDeviceReadyToReceiveChanges") rfl
  have hchanges := hready.step .plainChanges (.named "") rfl
  exact ⟨_, _, _, hchanges, sync_gate hchanges rfl, _, _, List.mem_cons_self, rfl, rfl⟩

/-- A second start that is refused stands between the device that was ready and the changes. -/
theorem second_start_refused : ∃ pre s c, SyncRun (pre ++ [s]) c ∧
    (∃ message err, SyncAction.send message err ∈ s.result.actions ∧ IsProcessChanges message) ∧
    ¬ ∃ before ready after, pre = before ++ ready :: after ∧ ready.IsReady ∧
      ∀ t ∈ after, ¬ t.call.IsBoundary := by
  have hstart := SyncRun.new.step (.plainStart "contacts")
    (.named "SDMessageSyncDataClassWithComputer") rfl
  have hready := hstart.step .readyToSendChanges
    (.named "SDMessageDeviceReadyToReceiveChanges") rfl
  have hsecond := hready.step (.plainStart "calendars") (.named "") rfl
  have hchanges := hsecond.step .plainChanges (.named "") rfl
  refine ⟨_, _, _, hchanges, ⟨_, _, List.mem_cons_self, rfl⟩, ?_⟩
  rintro ⟨before, ready, after, heq, ⟨hcall, -⟩, hafter⟩
  rcases before with _ | ⟨s₁, _ | ⟨s₂, _ | ⟨s₃, before⟩⟩⟩
  · injection heq with hs
    rw [← hs] at hcall
    cases hcall
  · injection heq with _ heq
    injection heq with _ heq
    rw [← heq] at hafter
    exact hafter _ List.mem_cons_self trivial
  · injection heq with _ heq
    injection heq with _ heq
    injection heq with hs
    rw [← hs] at hcall
    cases hcall
  · have hlength := congrArg List.length heq
    simp at hlength

end IDeviceStack.Libimobiledevice
