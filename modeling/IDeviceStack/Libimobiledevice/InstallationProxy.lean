/-
# `Libimobiledevice.InstallationProxy` — commands and their status messages

`instproxy_perform_command` of `installation_proxy.c` in its synchronous form: a command goes out,
and messages about it are taken until one of them ends it.

* What `property_list_service_receive_plist_with_timeout` brings is a list of arrivals: a message, a
  timeout, or an error.  Behind the last of them the loop is still waiting.
* The client stays connected while the loop runs.
* The accessors of libplist abort where an assertion of theirs fails, and so does everything that
  uses them.  The debug texts are made, so that `PercentComplete` is looked at as well.

**Proved here.**  `commandRight_iff`.
-/
import IDeviceStack.Lib.Returns
import IDeviceStack.Libplist.Plist
import IDeviceStack.Libplist.Values
import IDeviceStack.Libplist.Xplist.Scan

namespace IDeviceStack.Libimobiledevice.InstallationProxy

open Lib
open Libplist hiding plistDictGetItem
open Libplist.Values Libplist.Xplist List

/-! ## Errors -/

/-- `instproxy_error_t`. -/
inductive InstproxyError where
  | success | invalidArg | plistError | connFailed | opInProgress | opFailed | receiveTimeout
  | alreadyArchived | apiInternalError | applicationAlreadyInstalled | applicationMoveFailed
  | applicationSinfCaptureFailed | applicationSandboxFailed | applicationVerificationFailed
  | archiveDestructionFailed | bundleVerificationFailed | carrierBundleCopyFailed
  | carrierBundleDirectoryCreationFailed | carrierBundleMissingSupportedSims
  | commCenterNotificationFailed | containerCreationFailed | containerP0wnFailed
  | containerRemovalFailed | embeddedProfileInstallFailed | executableTwiddleFailed
  | existenceCheckFailed | installMapUpdateFailed | manifestCaptureFailed | mapGenerationFailed
  | missingBundleExecutable | missingBundleIdentifier | missingBundlePath | missingContainer
  | notificationFailed | packageExtractionFailed | packageInspectionFailed | packageMoveFailed
  | pathConversionFailed | restoreContainerFailed | seatbeltProfileRemovalFailed
  | stageCreationFailed | symlinkFailed | unknownCommand | itunesArtworkCaptureFailed
  | itunesMetadataCaptureFailed | deviceOsVersionTooLow | deviceFamilyNotSupported
  | packagePatchFailed | incorrectArchitecture | pluginCopyFailed | breadcrumbFailed
  | breadcrumbUnlockFailed | geojsonCaptureFailed | newsstandArtworkCaptureFailed
  | missingCommand | notEntitled | missingPackagePath | missingContainerPath
  | missingApplicationIdentifier | missingAttributeValue | lookupFailed | dictCreationFailed
  | installProhibited | uninstallProhibited | missingBundleVersion | unknownError
  deriving DecidableEq, Repr

/-- The names that `instproxy_strtoerr` knows. -/
def errorNames : List (String × InstproxyError) :=
  [("AlreadyArchived", .alreadyArchived), ("APIInternalError", .apiInternalError),
    ("ApplicationAlreadyInstalled", .applicationAlreadyInstalled),
    ("ApplicationMoveFailed", .applicationMoveFailed),
    ("ApplicationSINFCaptureFailed", .applicationSinfCaptureFailed),
    ("ApplicationSandboxFailed", .applicationSandboxFailed),
    ("ApplicationVerificationFailed", .applicationVerificationFailed),
    ("ArchiveDestructionFailed", .archiveDestructionFailed),
    ("BundleVerificationFailed", .bundleVerificationFailed),
    ("CarrierBundleCopyFailed", .carrierBundleCopyFailed),
    ("CarrierBundleDirectoryCreationFailed", .carrierBundleDirectoryCreationFailed),
    ("CarrierBundleMissingSupportedSIMs", .carrierBundleMissingSupportedSims),
    ("CommCenterNotificationFailed", .commCenterNotificationFailed),
    ("ContainerCreationFailed", .containerCreationFailed),
    ("ContainerP0wnFailed", .containerP0wnFailed),
    ("ContainerRemovalFailed", .containerRemovalFailed),
    ("EmbeddedProfileInstallFailed", .embeddedProfileInstallFailed),
    ("ExecutableTwiddleFailed", .executableTwiddleFailed),
    ("ExistenceCheckFailed", .existenceCheckFailed),
    ("InstallMapUpdateFailed", .installMapUpdateFailed),
    ("ManifestCaptureFailed", .manifestCaptureFailed),
    ("MapGenerationFailed", .mapGenerationFailed),
    ("MissingBundleExecutable", .missingBundleExecutable),
    ("MissingBundleIdentifier", .missingBundleIdentifier),
    ("MissingBundlePath", .missingBundlePath), ("MissingContainer", .missingContainer),
    ("NotificationFailed", .notificationFailed),
    ("PackageExtractionFailed", .packageExtractionFailed),
    ("PackageInspectionFailed", .packageInspectionFailed),
    ("PackageMoveFailed", .packageMoveFailed), ("PathConversionFailed", .pathConversionFailed),
    ("RestoreContainerFailed", .restoreContainerFailed),
    ("SeatbeltProfileRemovalFailed", .seatbeltProfileRemovalFailed),
    ("StageCreationFailed", .stageCreationFailed), ("SymlinkFailed", .symlinkFailed),
    ("UnknownCommand", .unknownCommand),
    ("iTunesArtworkCaptureFailed", .itunesArtworkCaptureFailed),
    ("iTunesMetadataCaptureFailed", .itunesMetadataCaptureFailed),
    ("DeviceOSVersionTooLow", .deviceOsVersionTooLow),
    ("DeviceFamilyNotSupported", .deviceFamilyNotSupported),
    ("PackagePatchFailed", .packagePatchFailed),
    ("IncorrectArchitecture", .incorrectArchitecture), ("PluginCopyFailed", .pluginCopyFailed),
    ("BreadcrumbFailed", .breadcrumbFailed), ("BreadcrumbUnlockFailed", .breadcrumbUnlockFailed),
    ("GeoJSONCaptureFailed", .geojsonCaptureFailed),
    ("NewsstandArtworkCaptureFailed", .newsstandArtworkCaptureFailed),
    ("MissingCommand", .missingCommand), ("NotEntitled", .notEntitled),
    ("MissingPackagePath", .missingPackagePath), ("MissingContainerPath", .missingContainerPath),
    ("MissingApplicationIdentifier", .missingApplicationIdentifier),
    ("MissingAttributeValue", .missingAttributeValue), ("LookupFailed", .lookupFailed),
    ("DictCreationFailed", .dictCreationFailed), ("InstallProhibited", .installProhibited),
    ("UninstallProhibited", .uninstallProhibited), ("MissingBundleVersion", .missingBundleVersion)]

def instproxyStrtoerr (name : List UInt8) : InstproxyError :=
  match errorNames.find? fun e => lit e.1 == name with
  | some e => e.2
  | none => .unknownError

/-- `property_list_service_error_t`. -/
inductive PropertyListError where
  | success | invalidArg | plistError | muxError | receiveTimeout | unknownError
  deriving DecidableEq, Repr

def instproxyError : PropertyListError → InstproxyError
  | .success => .success
  | .invalidArg => .invalidArg
  | .plistError => .plistError
  | .muxError => .connFailed
  | .receiveTimeout => .receiveTimeout
  | .unknownError => .unknownError

/-! ## Sending -/

/-- The two calls of `service_send` for a command: the length of its XML, and how many bytes of the
length and of the XML went out. -/
structure Sending where
  length : UInt32
  nlenSent : UInt32
  contentSent : UInt32
  deriving DecidableEq, Repr

/-- Everything went out. -/
def Sending.Complete (x : Sending) : Prop :=
  x.length ≠ 0 ∧ x.nlenSent = 4 ∧ x.contentSent = x.length

/-- `internal_plist_send`; `bytes` is an `int`. -/
def internalPlistSend (x : Sending) : PropertyListError :=
  if x.length = 0 then .plistError
  else if x.nlenSent = 4 then
    if x.contentSent.toBitVec.toInt ≤ 0 then .muxError
    else if x.contentSent = x.length then .success
    else .unknownError
  else if x.nlenSent.toBitVec.toInt ≤ 0 then .muxError
  else .unknownError

def instproxySendCommand (x : Sending) : InstproxyError := instproxyError (internalPlistSend x)

/-! ## Status messages -/

/-- A member of a message that is read as a string, if it is there. -/
def dictString (status : Plist) (key : String) : Except Abort (Option (List UInt8)) := do
  match ← plistDictGetItem status (lit key) with
  | some node =>
    let val ← plistGetStringVal node none
    pure (some val)
  | none => pure none

/-- A member that is read as an integer. -/
def dictUint (status : Plist) (key : String) : Except Abort (Option UInt64) := do
  match ← plistDictGetItem status (lit key) with
  | some node =>
    let val ← plistGetUintVal node 0
    pure (some val)
  | none => pure none

/-- `instproxy_status_get_error`; the code and the description are for the debug texts. -/
def instproxyStatusGetError (status : Plist) : Except Abort InstproxyError := do
  let name ← dictString status "Error"
  let _ ← dictUint status "ErrorDetail"
  let _ ← dictString status "ErrorDescription"
  match name with
  | some name => pure (instproxyStrtoerr name)
  | none => pure .success

def instproxyStatusGetName (status : Plist) : Except Abort (Option (List UInt8)) :=
  dictString status "Status"

def instproxyStatusGetPercentComplete (status : Plist) : Except Abort (Option UInt64) :=
  dictUint status "PercentComplete"

/-! ## The loop -/

/-- What one call of `property_list_service_receive_plist_with_timeout` brings. -/
inductive Arrival where
  | message (node : Plist)
  | timeout
  /-- A communication problem. -/
  | failed (e : {e : PropertyListError // e ≠ .success ∧ e ≠ .receiveTimeout})

/-- How a command ends. -/
inductive Outcome where
  | returned (res : InstproxyError)
  | waiting
  | aborted (a : Abort)
  deriving DecidableEq, Repr

/-- A run of the loop: the messages that it took, what the callback has made of its data, and the
end. -/
structure Run (σ : Type) where
  received : List Plist
  userData : σ
  outcome : Outcome

/-- What the loop makes of a message: `res` and `complete`. -/
def onStatus (node : Plist) : Except Abort (InstproxyError × Bool) := do
  let res ← instproxyStatusGetError node
  let complete := res != .success
  match ← instproxyStatusGetName node with
  | none => pure (res, true)
  | some statusName =>
    let _ ← instproxyStatusGetPercentComplete node
    if statusName = lit "Complete" then pure (res, true)
    else pure (.opInProgress, complete)

section Loop

variable {σ : Type}

def instproxyReceiveStatusLoop (statusCb : Plist → σ → Except Abort σ) : List Arrival → σ → Run σ
  | [], userData => ⟨[], userData, .waiting⟩
  | .timeout :: arrivals, userData => instproxyReceiveStatusLoop statusCb arrivals userData
  | .failed e :: _, userData => ⟨[], userData, .returned (instproxyError e)⟩
  | .message node :: arrivals, userData =>
    match onStatus node with
    | .error a => ⟨[node], userData, .aborted a⟩
    | .ok (res, complete) =>
      match statusCb node userData with
      | .error a => ⟨[node], userData, .aborted a⟩
      | .ok userData =>
        if complete then ⟨[node], userData, .returned res⟩
        else
          let run := instproxyReceiveStatusLoop statusCb arrivals userData
          { run with received := node :: run.received }

/-- `instproxy_perform_command`, for a client that may have a thread of its own. -/
def instproxyPerformCommand (hasThread : Bool) (x : Sending)
    (statusCb : Plist → σ → Except Abort σ) (arrivals : List Arrival) (userData : σ) : Run σ :=
  if hasThread then ⟨[], userData, .returned .opInProgress⟩
  else
    -- `res`, which the loop overwrites
    let _res := instproxySendCommand x
    instproxyReceiveStatusLoop statusCb arrivals userData

end Loop

/-! ## What the messages say -/

/-- The string of a member. -/
def textOf (status : Plist) (key : String) : Option (List UInt8) :=
  match plistDictGetItem status (lit key) with
  | .ok (some (.scalar (.string strval) _)) => some (cstr strval)
  | _ => none

/-- The error of a message. -/
def errorOf (status : Plist) : Option InstproxyError :=
  (textOf status "Error").map instproxyStrtoerr

/-- A string with the length of its own. -/
def StringNode (node : Plist) : Prop :=
  ∃ strval length, node = .scalar (.string strval) length ∧ length = strlen strval

/-- An integer of 8 or 16 bytes. -/
def UintNode (node : Plist) : Prop :=
  ∃ intval length, node = .scalar (.uint intval) length ∧ (length = 8 ∨ length = 16)

/-- The member can be looked up, and is none or one with `P`. -/
def Gets (status : Plist) (key : String) (P : Plist → Prop) : Prop :=
  ∃ found, plistDictGetItem status (lit key) = .ok found ∧ ∀ node, found = some node → P node

/-- The members of a message have their types. -/
structure Readable (status : Plist) : Prop where
  error : Gets status "Error" StringNode
  detail : Gets status "ErrorDetail" UintNode
  description : Gets status "ErrorDescription" StringNode
  name : Gets status "Status" StringNode
  percent : (textOf status "Status").isSome → Gets status "PercentComplete" UintNode

def complete : List UInt8 := lit "Complete"

/-- The message is the last one that the loop takes. -/
def Ends (status : Plist) : Prop :=
  (errorOf status).isSome ∨ textOf status "Status" = none ∨ textOf status "Status" = some complete

instance (status : Plist) : Decidable (Ends status) :=
  inferInstanceAs (Decidable (_ ∨ _ ∨ _))

/-- The messages up to the one that ends the loop, or to the first error of the service. -/
def taken : List Arrival → List Plist
  | [] => []
  | .timeout :: arrivals => taken arrivals
  | .failed _ :: _ => []
  | .message node :: arrivals => node :: if Ends node then [] else taken arrivals

/-- The last message of a command that was sent so: an error alone, or the success of a command that
was sent as a whole. -/
def EndsWell (x : Sending) (status : Plist) : Prop :=
  match errorOf status with
  | some _ => textOf status "Status" = none ∨ textOf status "Status" = some complete
  | none => textOf status "Status" = some complete ∧ x.Complete

/-- The calls of the callback. -/
def logCall (status : Plist) (called : List Plist) : Except Abort (List Plist) :=
  .ok (called ++ [status])

/-- The command comes back with a success only for a whole command and a `Complete` without an error,
with the first error that there is, and with one call for each message. -/
structure CommandRight (hasThread : Bool) (x : Sending) (arrivals : List Arrival) : Prop where
  returns : ∀ a,
    (instproxyPerformCommand hasThread x logCall arrivals []).outcome ≠ .aborted a
  success : (instproxyPerformCommand hasThread x logCall arrivals []).outcome = .returned .success →
    x.Complete ∧ ∃ status ∈ (instproxyPerformCommand hasThread x logCall arrivals []).received,
      textOf status "Status" = some complete ∧ errorOf status = none
  error : ∀ earlier status later e,
    (instproxyPerformCommand hasThread x logCall arrivals []).received =
      earlier ++ status :: later → errorOf status = some e →
    later = [] ∧ (instproxyPerformCommand hasThread x logCall arrivals []).outcome = .returned e
  called : (instproxyPerformCommand hasThread x logCall arrivals []).userData =
    (instproxyPerformCommand hasThread x logCall arrivals []).received

/-! ## Reading a message -/

theorem plistGetStringVal_ok_iff (node : Plist) (val : List UInt8) :
    plistGetStringVal node none = .ok val ↔
      ∃ strval length, node = .scalar (.string strval) length ∧ length = strlen strval ∧
        val = cstr strval := by
  have hother : (∀ strval length, node ≠ .scalar (.string strval) length) →
      plistGetStringVal node none = .error .null := by
    intro hne
    cases node with
    | array _ => rfl
    | dict _ => rfl
    | scalar value length =>
      cases value with
      | string strval => exact absurd rfl (hne strval length)
      | _ => rfl
  constructor
  · intro h
    by_cases hstring : ∃ strval length, node = .scalar (.string strval) length
    · obtain ⟨strval, length, rfl⟩ := hstring
      rw [plistGetStringVal] at h
      split at h
      · next hlength =>
        refine ⟨strval, length, rfl, ?_, (Except.ok.inj h).symm⟩
        rw [hlength, strlen, strlen, cstr_cstr]
      · cases h
    · rw [hother fun strval length heq => hstring ⟨strval, length, heq⟩] at h
      cases h
  · rintro ⟨strval, length, rfl, hlength, rfl⟩
    rw [plistGetStringVal, if_pos]
    rw [hlength, strlen, strlen, cstr_cstr]

theorem plistGetUintVal_ok_iff (node : Plist) (val : UInt64) :
    plistGetUintVal node 0 = .ok val ↔
      ∃ length, node = .scalar (.uint val) length ∧ (length = 8 ∨ length = 16) := by
  constructor
  · intro h
    cases node with
    | array _ => cases h
    | dict _ => cases h
    | scalar value length =>
      cases value with
      | uint intval =>
        rw [plistGetUintVal] at h
        split at h
        · next hlength => exact ⟨length, Except.ok.inj h ▸ rfl, hlength⟩
        · cases h
      | _ => cases h
  · rintro ⟨length, rfl, hlength⟩
    exact if_pos hlength

theorem dictString_ok_iff (status : Plist) (key : String) (val : Option (List UInt8)) :
    dictString status key = .ok val ↔ Gets status key StringNode ∧ val = textOf status key := by
  rw [dictString, except_bind_eq_ok, Gets, textOf]
  constructor
  · rintro ⟨found, hfound, h⟩
    rw [hfound]
    cases found with
    | none =>
      cases h
      exact ⟨⟨none, rfl, nofun⟩, rfl⟩
    | some node =>
      obtain ⟨val', hval, h⟩ := except_bind_eq_ok.1 h
      cases h
      obtain ⟨strval, length, rfl, hlength, rfl⟩ := (plistGetStringVal_ok_iff _ _).1 hval
      refine ⟨⟨_, rfl, ?_⟩, rfl⟩
      rintro _ ⟨⟩
      exact ⟨strval, length, rfl, hlength⟩
  · rintro ⟨⟨found, hfound, hnode⟩, rfl⟩
    rw [hfound]
    cases found with
    | none => exact ⟨none, rfl, rfl⟩
    | some node =>
      obtain ⟨strval, length, rfl, hlength⟩ := hnode _ rfl
      have hval := (plistGetStringVal_ok_iff _ _).2 ⟨strval, length, rfl, hlength, rfl⟩
      exact ⟨_, rfl, except_bind_eq_ok.2 ⟨_, hval, rfl⟩⟩

theorem dictUint_ok_iff (status : Plist) (key : String) :
    (∃ val, dictUint status key = .ok val) ↔ Gets status key UintNode := by
  simp only [dictUint, except_bind_eq_ok, Gets]
  constructor
  · rintro ⟨val, found, hfound, h⟩
    refine ⟨found, hfound, ?_⟩
    rintro node rfl
    obtain ⟨val', hval, -⟩ := except_bind_eq_ok.1 h
    obtain ⟨length, rfl, hlength⟩ := (plistGetUintVal_ok_iff _ _).1 hval
    exact ⟨val', length, rfl, hlength⟩
  · rintro ⟨found, hfound, hnode⟩
    cases found with
    | none => exact ⟨none, none, hfound, rfl⟩
    | some node =>
      obtain ⟨intval, length, rfl, hlength⟩ := hnode _ rfl
      have hval := (plistGetUintVal_ok_iff _ intval).2 ⟨length, rfl, hlength⟩
      exact ⟨some intval, _, hfound, except_bind_eq_ok.2 ⟨_, hval, rfl⟩⟩

/-- What the loop makes of a message that can be read. -/
def verdict (status : Plist) : InstproxyError × Bool :=
  match textOf status "Status" with
  | none => ((errorOf status).getD .success, true)
  | some name =>
    if name = complete then ((errorOf status).getD .success, true)
    else (.opInProgress, (errorOf status).isSome)

theorem instproxyStrtoerr_ne (name : List UInt8) :
    instproxyStrtoerr name ≠ .success ∧ instproxyStrtoerr name ≠ .opInProgress := by
  rw [instproxyStrtoerr]
  cases hfind : errorNames.find? fun e => lit e.1 == name with
  | none => exact ⟨nofun, nofun⟩
  | some e =>
    have hall : ∀ e ∈ errorNames, e.2 ≠ .success ∧ e.2 ≠ .opInProgress := by decide
    exact hall e (mem_of_find?_eq_some hfind)

theorem errorOf_ne {status : Plist} {e : InstproxyError} (h : errorOf status = some e) :
    e ≠ .success ∧ e ≠ .opInProgress := by
  obtain ⟨name, -, rfl⟩ := Option.map_eq_some_iff.1 h
  exact instproxyStrtoerr_ne name

theorem getD_errorOf_ne_success (status : Plist) :
    ((errorOf status).getD .success != .success) = (errorOf status).isSome := by
  cases herror : errorOf status with
  | none => rfl
  | some e => simpa using (errorOf_ne herror).1

theorem instproxyStatusGetError_ok_iff (status : Plist) (res : InstproxyError) :
    instproxyStatusGetError status = .ok res ↔
      Gets status "Error" StringNode ∧ Gets status "ErrorDetail" UintNode ∧
        Gets status "ErrorDescription" StringNode ∧ res = (errorOf status).getD .success := by
  simp only [instproxyStatusGetError, except_bind_eq_ok, dictString_ok_iff]
  have hname : ∀ name, (match name with
      | some name => pure (instproxyStrtoerr name)
      | none => pure .success : Except Abort InstproxyError) = .ok res ↔
        res = (name.map instproxyStrtoerr).getD .success := by
    intro name
    cases name with
    | none => exact ⟨fun h => (Except.ok.inj h).symm, fun h => congrArg Except.ok h.symm⟩
    | some name => exact ⟨fun h => (Except.ok.inj h).symm, fun h => congrArg Except.ok h.symm⟩
  constructor
  · rintro ⟨name, ⟨herror, rfl⟩, detail, hdetail, description, ⟨hdescription, -⟩, h⟩
    exact ⟨herror, (dictUint_ok_iff _ _).1 ⟨detail, hdetail⟩, hdescription, (hname _).1 h⟩
  · rintro ⟨herror, hdetail, hdescription, h⟩
    obtain ⟨detail, hdetail⟩ := (dictUint_ok_iff _ _).2 hdetail
    exact ⟨_, ⟨herror, rfl⟩, detail, hdetail, _, ⟨hdescription, rfl⟩, (hname _).2 h⟩

/-- **One message.**  It is gone through exactly if it can be read, with its verdict. -/
theorem onStatus_ok_iff (status : Plist) (r : InstproxyError × Bool) :
    onStatus status = .ok r ↔ Readable status ∧ r = verdict status := by
  simp only [onStatus, instproxyStatusGetName, except_bind_eq_ok, instproxyStatusGetError_ok_iff,
    dictString_ok_iff]
  constructor
  · rintro ⟨res, ⟨herror, hdetail, hdescription, rfl⟩, name, ⟨hname, rfl⟩, h⟩
    rw [verdict]
    cases hstatus : textOf status "Status" with
    | none =>
      rw [hstatus] at h
      refine ⟨⟨herror, hdetail, hdescription, hname, fun hsome => ?_⟩, (Except.ok.inj h).symm⟩
      rw [hstatus] at hsome
      cases hsome
    | some name =>
      rw [hstatus] at h
      obtain ⟨percent, hpercent, h⟩ := except_bind_eq_ok.1 h
      refine ⟨⟨herror, hdetail, hdescription, hname, fun _ =>
        (dictUint_ok_iff _ _).1 ⟨percent, hpercent⟩⟩, ?_⟩
      by_cases hcomplete : name = lit "Complete"
      · rw [if_pos hcomplete] at h
        exact (Except.ok.inj h).symm.trans (if_pos hcomplete).symm
      · rw [if_neg hcomplete, getD_errorOf_ne_success] at h
        exact (Except.ok.inj h).symm.trans (if_neg hcomplete).symm
  · rintro ⟨hread, rfl⟩
    refine ⟨_, ⟨hread.error, hread.detail, hread.description, rfl⟩, _, ⟨hread.name, rfl⟩, ?_⟩
    rw [verdict]
    cases hstatus : textOf status "Status" with
    | none => rfl
    | some name =>
      obtain ⟨percent, hpercent⟩ := (dictUint_ok_iff _ _).2 (hread.percent (hstatus ▸ rfl))
      refine except_bind_eq_ok.2 ⟨percent, hpercent, ?_⟩
      by_cases hcomplete : name = lit "Complete"
      · rw [if_pos hcomplete]
        exact congrArg Except.ok (if_pos hcomplete).symm
      · rw [if_neg hcomplete, getD_errorOf_ne_success]
        exact congrArg Except.ok (if_neg hcomplete).symm

theorem verdict_complete (status : Plist) : (verdict status).2 = true ↔ Ends status := by
  rw [verdict, Ends]
  cases textOf status "Status" with
  | none => simp
  | some name =>
    by_cases hcomplete : name = complete
    · simp [hcomplete]
    · simp [hcomplete]

/-! ## Runs of the loop -/

/-- The end of a run in which every message can be read. -/
def ending : List Arrival → Outcome
  | [] => .waiting
  | .timeout :: arrivals => ending arrivals
  | .failed e :: _ => .returned (instproxyError e)
  | .message node :: arrivals =>
    if Ends node then .returned (verdict node).1 else ending arrivals

section Runs

variable {τ : Type} {statusCb : Plist → List τ → Except Abort (List τ)}
  {adds : Plist → Except Abort (List τ)}

theorem loop_appends (hcb : ∀ node data, statusCb node data = (adds node).map (data ++ ·))
    (arrivals : List Arrival) (data : List τ)
    (h : ∀ node ∈ taken arrivals, Readable node ∧ ∃ new, adds node = .ok new) :
    instproxyReceiveStatusLoop statusCb arrivals data =
      ⟨taken arrivals, data ++ (taken arrivals).flatMap fun node => (adds node).toOption.getD [],
        ending arrivals⟩ := by
  induction arrivals generalizing data with
  | nil => simp [instproxyReceiveStatusLoop, taken, ending]
  | cons arrival arrivals ih =>
    cases arrival with
    | timeout => exact ih data h
    | failed e => simp [instproxyReceiveStatusLoop, taken, ending]
    | message node =>
      obtain ⟨hread, new, hnew⟩ := h node mem_cons_self
      have hstatus := (onStatus_ok_iff node (verdict node)).2 ⟨hread, rfl⟩
      have hcall : statusCb node data = .ok (data ++ new) := by rw [hcb, hnew]; rfl
      rw [instproxyReceiveStatusLoop, hstatus]
      simp only [hcall, verdict_complete, taken, ending]
      by_cases hends : Ends node
      · simp [hends, hnew, Except.toOption]
      · have hrest : ∀ node ∈ taken arrivals, Readable node ∧ ∃ new, adds node = .ok new :=
          fun node' hnode => h node' (by
            rw [taken, if_neg hends]
            exact mem_cons_of_mem node hnode)
        rw [if_neg hends, if_neg hends, if_neg hends, ih (data ++ new) hrest]
        simp [hnew, Except.toOption]

theorem loop_aborts (hcb : ∀ node data, statusCb node data = (adds node).map (data ++ ·))
    (arrivals : List Arrival) (data : List τ)
    (h : ¬ ∀ node ∈ taken arrivals, Readable node ∧ ∃ new, adds node = .ok new) :
    ∃ a, (instproxyReceiveStatusLoop statusCb arrivals data).outcome = .aborted a := by
  induction arrivals generalizing data with
  | nil => exact absurd (fun _ hnode => absurd hnode not_mem_nil) h
  | cons arrival arrivals ih =>
    cases arrival with
    | timeout => exact ih data h
    | failed e => exact absurd (fun _ hnode => absurd hnode not_mem_nil) h
    | message node =>
      rw [instproxyReceiveStatusLoop]
      cases hstatus : onStatus node with
      | error a => exact ⟨a, rfl⟩
      | ok r =>
        obtain ⟨hread, rfl⟩ := (onStatus_ok_iff node r).1 hstatus
        cases hnew : adds node with
        | error a => exact ⟨a, by simp [hcb, hnew, Except.map]⟩
        | ok new =>
          have hcall : statusCb node data = .ok (data ++ new) := by rw [hcb, hnew]; rfl
          simp only [hcall, verdict_complete]
          have hends : ¬ Ends node := by
            intro hends
            refine h fun node' hnode => ?_
            rw [taken, if_pos hends, mem_singleton] at hnode
            rw [hnode]
            exact ⟨hread, new, hnew⟩
          rw [if_neg hends]
          refine ih (data ++ new) fun hrest => h fun node' hnode => ?_
          rw [taken, if_neg hends, mem_cons] at hnode
          rcases hnode with rfl | hnode
          · exact ⟨hread, new, hnew⟩
          · exact hrest node' hnode

end Runs

theorem ending_cases (arrivals : List Arrival) :
    (∃ earlier node, taken arrivals = earlier ++ [node] ∧ Ends node ∧
        (∀ node' ∈ earlier, ¬ Ends node') ∧ ending arrivals = .returned (verdict node).1) ∨
      (∀ node ∈ taken arrivals, ¬ Ends node) ∧ ending arrivals ≠ .returned .success := by
  induction arrivals with
  | nil => exact .inr ⟨nofun, nofun⟩
  | cons arrival arrivals ih =>
    cases arrival with
    | timeout => exact ih
    | failed e =>
      refine .inr ⟨nofun, ?_⟩
      obtain ⟨e, hsuccess, htimeout⟩ := e
      cases e with
      | success => exact absurd rfl hsuccess
      | _ => exact nofun
    | message node =>
      rw [taken, ending]
      by_cases hends : Ends node
      · rw [if_pos hends, if_pos hends]
        exact .inl ⟨[], node, rfl, hends, nofun, rfl⟩
      · rw [if_neg hends, if_neg hends]
        rcases ih with ⟨earlier, last, htaken, hlast, hearlier, hending⟩ | ⟨hnone, hending⟩
        · refine .inl ⟨node :: earlier, last, by rw [htaken]; rfl, hlast, ?_, hending⟩
          exact forall_mem_cons.2 ⟨hends, hearlier⟩
        · exact .inr ⟨forall_mem_cons.2 ⟨hends, hnone⟩, hending⟩

/-! ## The result -/

/-- The messages that are taken can be read, and the last one ends well. -/
def MessagesRight (x : Sending) (arrivals : List Arrival) : Prop :=
  ∀ node ∈ taken arrivals, Readable node ∧ (Ends node → EndsWell x node)

theorem error_ends {status : Plist} {e : InstproxyError} (h : errorOf status = some e) :
    Ends status := .inl (h ▸ rfl)

theorem verdict_of_endsWell {x : Sending} {status : Plist} (h : EndsWell x status) :
    (verdict status).1 = (errorOf status).getD .success := by
  rw [EndsWell] at h
  rw [verdict]
  cases herror : errorOf status with
  | some e =>
    rw [herror] at h
    rcases h with hname | hname
    · rw [hname]
    · rw [hname]
      exact congrArg Prod.fst (if_pos rfl)
  | none =>
    rw [herror] at h
    rw [h.1]
    exact congrArg Prod.fst (if_pos rfl)

theorem ending_ne_aborted (arrivals : List Arrival) (a : Abort) : ending arrivals ≠ .aborted a := by
  induction arrivals with
  | nil => exact nofun
  | cons arrival arrivals ih =>
    cases arrival with
    | timeout => exact ih
    | failed e => exact nofun
    | message node =>
      rw [ending]
      split
      · exact nofun
      · exact ih

/-- A success is that of a whole command and a `Complete` without an error. -/
def SuccessMeant (x : Sending) (arrivals : List Arrival) : Prop :=
  ending arrivals = .returned .success →
    x.Complete ∧ ∃ status ∈ taken arrivals,
      textOf status "Status" = some complete ∧ errorOf status = none

/-- The first error is the end, and the result. -/
def FirstErrorReturned (arrivals : List Arrival) : Prop :=
  ∀ earlier status later e, taken arrivals = earlier ++ status :: later →
    errorOf status = some e → later = [] ∧ ending arrivals = .returned e

theorem endsWell_of_right {x : Sending} {arrivals : List Arrival} (hsuccess : SuccessMeant x arrivals)
    (herror : FirstErrorReturned arrivals) {earlier : List Plist} {last : Plist}
    (htaken : taken arrivals = earlier ++ [last]) (hends : Ends last)
    (hearlier : ∀ node ∈ earlier, ¬ Ends node)
    (hending : ending arrivals = .returned (verdict last).1) : EndsWell x last := by
  rw [EndsWell]
  cases hlast : errorOf last with
  | some e =>
    have hreturned := (herror earlier last [] e htaken hlast).2
    rw [hending, verdict] at hreturned
    cases hname : textOf last "Status" with
    | none => exact .inl rfl
    | some name =>
      by_cases hcomplete : name = complete
      · exact .inr (congrArg some hcomplete)
      · rw [hname] at hreturned
        simp only [if_neg hcomplete, Outcome.returned.injEq] at hreturned
        exact absurd hreturned.symm (errorOf_ne hlast).2
  | none =>
    have hresult : (verdict last).1 = .success := by
      rw [verdict, hlast]
      rcases hends with hsome | hname | hname
      · rw [hlast] at hsome
        cases hsome
      · rw [hname]
        rfl
      · rw [hname]
        exact congrArg Prod.fst (if_pos rfl)
    rw [hresult] at hending
    obtain ⟨hsent, status, hstatus, hname, hnone⟩ := hsuccess hending
    rw [htaken, mem_append, mem_singleton] at hstatus
    rcases hstatus with hstatus | rfl
    · exact absurd (.inr (.inr hname)) (hearlier status hstatus)
    · exact ⟨hname, hsent⟩

theorem later_eq_nil {earlier earlier' later : List Plist} {last status : Plist} {e : InstproxyError}
    (h : earlier ++ [last] = earlier' ++ status :: later) (hearlier : ∀ node ∈ earlier, ¬ Ends node)
    (herror : errorOf status = some e) : later = [] ∧ status = last := by
  rcases later.eq_nil_or_concat with rfl | ⟨later, b, rfl⟩
  · obtain ⟨-, hlast⟩ := append_inj' h rfl
    exact ⟨rfl, (List.cons.inj hlast).1.symm⟩
  · rw [concat_eq_append, ← cons_append, ← append_assoc] at h
    obtain ⟨hfront, -⟩ := append_inj' h rfl
    refine absurd (error_ends herror) (hearlier status ?_)
    rw [hfront]
    exact mem_append_right _ mem_cons_self

theorem readableRun_iff (x : Sending) (arrivals : List Arrival) :
    SuccessMeant x arrivals ∧ FirstErrorReturned arrivals ↔
      ∀ node ∈ taken arrivals, Ends node → EndsWell x node := by
  rcases ending_cases arrivals with ⟨earlier, last, htaken, hends, hearlier, hending⟩ |
    ⟨hnone, hending⟩
  · constructor
    · rintro ⟨hsuccess, herror⟩ node hnode hnodeEnds
      rw [htaken, mem_append, mem_singleton] at hnode
      rcases hnode with hnode | rfl
      · exact absurd hnodeEnds (hearlier node hnode)
      · exact endsWell_of_right hsuccess herror htaken hends hearlier hending
    · intro hwell
      have hmem : last ∈ taken arrivals := by
        rw [htaken]
        exact mem_append_right _ (mem_singleton.2 rfl)
      have hlast := hwell last hmem hends
      rw [verdict_of_endsWell hlast] at hending
      constructor
      · intro hsuccess
        rw [hending, Outcome.returned.injEq] at hsuccess
        rw [EndsWell] at hlast
        cases herror : errorOf last with
        | some e =>
          rw [herror] at hsuccess
          exact absurd hsuccess (errorOf_ne herror).1
        | none =>
          rw [herror] at hlast
          exact ⟨hlast.2, last, hmem, hlast.1, herror⟩
      · intro earlier' status later e heq herror
        obtain ⟨hlater, rfl⟩ := later_eq_nil (htaken.symm.trans heq) hearlier herror
        rw [hending, herror]
        exact ⟨hlater, rfl⟩
  · refine iff_of_true ⟨fun hsuccess => absurd hsuccess hending, ?_⟩ fun node hnode hends =>
      absurd hends (hnone node hnode)
    intro earlier status later e heq herror
    refine absurd (error_ends herror) (hnone status ?_)
    rw [heq]
    exact mem_append_right _ mem_cons_self

/-- **Commands.**  The result is right exactly if every message can be read, and the one that ends
the loop has an error, and no other `Status` than `Complete`, or is the `Complete` of a whole
command. -/
theorem commandRight_iff (hasThread : Bool) (x : Sending) (arrivals : List Arrival) :
    CommandRight hasThread x arrivals ↔ hasThread = true ∨ MessagesRight x arrivals := by
  cases hasThread with
  | true =>
    refine iff_of_true ⟨nofun, nofun, fun earlier status later e h => ?_, rfl⟩ (.inl rfl)
    exact absurd h.symm (append_ne_nil_of_right_ne_nil _ (cons_ne_nil _ _))
  | false =>
    have hcb : ∀ node data, logCall node data = (Except.ok [node]).map (data ++ ·) :=
      fun _ _ => rfl
    rw [or_iff_right Bool.false_ne_true]
    by_cases hread : ∀ node ∈ taken arrivals, Readable node
    · have hrun : instproxyPerformCommand false x logCall arrivals [] =
          ⟨taken arrivals, taken arrivals, ending arrivals⟩ := by
        rw [instproxyPerformCommand, if_neg Bool.false_ne_true]
        refine (loop_appends hcb arrivals [] fun node hnode => ⟨hread node hnode, _, rfl⟩).trans ?_
        simp [Except.toOption]
      constructor
      · rintro ⟨-, hsuccess, herror, -⟩
        rw [hrun] at hsuccess herror
        have hwell := (readableRun_iff x arrivals).1 ⟨hsuccess, herror⟩
        exact fun node hnode => ⟨hread node hnode, hwell node hnode⟩
      · intro hmessages
        obtain ⟨hsuccess, herror⟩ := (readableRun_iff x arrivals).2 fun node hnode =>
          (hmessages node hnode).2
        refine ⟨fun a => ?_, ?_, ?_, ?_⟩
        · rw [hrun]
          exact ending_ne_aborted arrivals a
        · rw [hrun]
          exact hsuccess
        · rw [hrun]
          exact herror
        · rw [hrun]
    · have habort := loop_aborts hcb arrivals [] fun h => hread fun node hnode => (h node hnode).1
      obtain ⟨a, ha⟩ := habort
      refine iff_of_false (fun h => h.returns a ?_) fun h => hread fun node hnode => (h node hnode).1
      rw [instproxyPerformCommand, if_neg Bool.false_ne_true]
      exact ha

/-- `<dict><key>Error</key><string>AlreadyArchived</string><key>Status</key>…`. -/
def failedArchive : Plist :=
  .dict [.scalar (.key (lit "Error")) 5, .scalar (.string (lit "AlreadyArchived")) 15,
    .scalar (.key (lit "Status")) 6, .scalar (.string (lit "Archiving")) 9]

/-- A command of 100 bytes. -/
def wholeCommand : Sending := ⟨100, 4, 100⟩

/-- An error together with a `Status` comes back as a command that goes on, and an empty dictionary
as a success. -/
theorem commandRight_refuted :
    (instproxyPerformCommand false wholeCommand logCall [.message failedArchive] []).outcome =
        .returned .opInProgress ∧
      ¬ CommandRight false wholeCommand [.message failedArchive] ∧
      (instproxyPerformCommand false wholeCommand logCall [.message (.dict [])] []).outcome =
        .returned .success ∧
      ¬ CommandRight false wholeCommand [.message (.dict [])] := by
  have hfailed : (instproxyPerformCommand false wholeCommand logCall
      [.message failedArchive] []).outcome = .returned .opInProgress := by decide +kernel
  have hempty : (instproxyPerformCommand false wholeCommand logCall
      [.message (.dict [])] []).outcome = .returned .success := by decide +kernel
  refine ⟨hfailed, fun h => ?_, hempty, fun h => ?_⟩
  · have herror : errorOf failedArchive = some .alreadyArchived := by decide +kernel
    have hreturned := (h.error [] failedArchive [] .alreadyArchived rfl herror).2
    rw [hfailed] at hreturned
    cases hreturned
  · obtain ⟨-, status, hstatus, hname, -⟩ := h.success hempty
    rw [mem_singleton.1 hstatus] at hname
    cases hname

end IDeviceStack.Libimobiledevice.InstallationProxy
