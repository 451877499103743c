/-
# `Libimobiledevice.Lockdown` — sessions of the lockdown service

`lockdown.c`: requests and replies, and the session of a client.  `lockdownd_start_session` and
`lockdownd_stop_session` keep the identifier of the session and whether it is encrypted; the
connection keeps its own note, `ssl_data`.

* A dictionary is its entries in order, the keys as C strings.  A reply that is no dictionary has
  no entries.
* What the device and the transport do is an argument: an `Exchange` for each request, with the
  result of the send and the reply or the error of the receive.
* `requests` keeps what was sent.  `secured` and `running` are not in the source: whether the
  session at hand was announced as encrypted, and whether one was started and not stopped.
* The client is not `NULL`.
-/
import IDeviceStack.Libimobiledevice.Connection
import IDeviceStack.Libplist.DictRun
import IDeviceStack.Libplist.Xplist.Scan

namespace IDeviceStack.Libimobiledevice

open Libplist Libplist.Xplist

/-! ## Errors -/

/-- `lockdownd_error_t`. -/
inductive LockdowndError where
  | success | invalidArg | invalidConf | plistError | pairingFailed | sslError | muxError
  | noRunningSession | invalidResponse | missingKey | missingValue | getProhibited | setProhibited
  | removeProhibited | immutableValue | passwordProtected | userDeniedPairing
  | pairingDialogResponsePending | missingHostId | invalidHostId | sessionActive | sessionInactive
  | missingSessionId | invalidSessionId | missingService | invalidService | serviceLimit
  | missingPairRecord | savePairRecordFailed | invalidPairRecord | invalidActivationRecord
  | missingActivationRecord | serviceProhibited | escrowLocked
  | pairingProhibitedOverThisConnection | fmipProtected | mcProtected | mcChallengeRequired
  | unknownError
  deriving DecidableEq, Repr

/-- The names that `lockdownd_strtoerr` knows. -/
def errorNames : List (String × LockdowndError) :=
  [("InvalidResponse", .invalidResponse), ("MissingKey", .missingKey),
    ("MissingValue", .missingValue), ("GetProhibited", .getProhibited),
    ("SetProhibited", .setProhibited), ("RemoveProhibited", .removeProhibited),
    ("ImmutableValue", .immutableValue), ("PasswordProtected", .passwordProtected),
    ("UserDeniedPairing", .userDeniedPairing),
    ("PairingDialogResponsePending", .pairingDialogResponsePending),
    ("MissingHostID", .missingHostId), ("InvalidHostID", .invalidHostId),
    ("SessionActive", .sessionActive), ("SessionInactive", .sessionInactive),
    ("MissingSessionID", .missingSessionId), ("InvalidSessionID", .invalidSessionId),
    ("MissingService", .missingService), ("InvalidService", .invalidService),
    ("ServiceLimit", .serviceLimit), ("MissingPairRecord", .missingPairRecord),
    ("SavePairRecordFailed", .savePairRecordFailed), ("InvalidPairRecord", .invalidPairRecord),
    ("InvalidActivationRecord", .invalidActivationRecord),
    ("MissingActivationRecord", .missingActivationRecord),
    ("ServiceProhibited", .serviceProhibited), ("EscrowLocked", .escrowLocked),
    ("PairingProhibitedOverThisConnection", .pairingProhibitedOverThisConnection),
    ("FMiPProtected", .fmipProtected), ("MCProtected", .mcProtected),
    ("MCChallengeRequired", .mcChallengeRequired)]

def lockdowndStrtoerr (name : List UInt8) : LockdowndError :=
  match errorNames.find? fun e => lit e.1 == name with
  | some e => e.2
  | none => .unknownError

/-- `service_to_property_list_service_error` and `lockdownd_error`, one after the other. -/
def lockdowndError : ServiceError → LockdowndError
  | .success => .success
  | .invalidArg => .invalidArg
  | .muxError => .muxError
  | .sslError => .sslError
  | _ => .unknownError

/-- `lockdownd_error` of `property_list_service_enable_ssl`. -/
def sslResult (e : IdeviceError) : LockdowndError := lockdowndError (ideviceToServiceError e)

/-! ## Dictionaries -/

/-- The entries of a dictionary. -/
abbrev Dict := List (List UInt8 × Plist)

/-- `plist_dict_get_item`. -/
def Dict.getItem (dict : Dict) (key : String) : Option Plist :=
  (List.find? (fun e => e.1 == lit key) dict).map Prod.snd

/-- `plist_dict_set_item`. -/
def Dict.setItem (dict : Dict) (key : String) (item : Plist) : Dict := setEntry dict (lit key) item

/-- `plist_new_string`. -/
def newString (s : List UInt8) : Plist := .scalar (.string s) s.length

/-- `plist_get_string_val`; `none` for a node of another type.  It asserts that the length of the node
is that of its C string, which a string of a binary plist with a `NUL` in it does not meet; that end
of the program is left out. -/
def stringVal : Plist → Option (List UInt8)
  | .scalar (.string s) _ => some (cstr s)
  | _ => none

/-- `plist_get_bool_val` of a node, `0` if there is none or it has another type. -/
def boolVal : Option Plist → UInt8
  | some (.scalar (.boolean b) _) => b
  | _ => 0

/-- `plist_dict_add_label`. -/
def Dict.addLabel (dict : Dict) (label : Option (List UInt8)) : Dict :=
  match label with
  | none => dict
  | some l => dict.setItem "Label" (newString l)

/-- A dictionary with the label and the name of a request. -/
def newRequest (label : Option (List UInt8)) (request : String) : Dict :=
  (Dict.addLabel [] label).setItem "Request" (newString (lit request))

def lockdownCheckResult (dict : Dict) (queryMatch : Option String) : LockdowndError :=
  match (dict.getItem "Request").bind stringVal with
  | none => .unknownError
  | some queryValue =>
    if queryMatch.any fun m => lit m != queryValue then .unknownError
    else
      match dict.getItem "Result" with
      | none =>
        match dict.getItem "Error" with
        | none => .success
        | some errNode =>
          match stringVal errNode with
          | some errValue => lockdowndStrtoerr errValue
          | none => .unknownError
      | some resultNode =>
        if stringVal resultNode = some (lit "Success") then .success else .unknownError

/-! ## Exchanges -/

/-- What a receive brings: a dictionary, or an error. -/
inductive Answer where
  | reply (dict : Dict)
  | failed (e : LockdowndError) (h : e ≠ .success)

/-- A request and what comes back: the result of the send, and the answer. -/
structure Exchange where
  sent : LockdowndError
  answer : Answer

/-- `struct lockdownd_client_private` with `ssl_data` of its connection. -/
structure LockdownClient where
  label : Option (List UInt8)
  sessionId : Option (List UInt8)
  sslEnabled : Bool
  sslData : Bool
  /-- The requests, each with `ssl_data` and `secured` at that time. -/
  requests : List (Dict × Bool × Bool)
  secured : Bool
  running : Bool

/-- `lockdownd_client_new`. -/
def LockdownClient.new (label : Option (List UInt8)) : LockdownClient :=
  ⟨label, none, false, false, [], false, false⟩

/-- `lockdownd_send`, as far as the client sees it. -/
def LockdownClient.send (c : LockdownClient) (dict : Dict) : LockdownClient :=
  { c with requests := c.requests ++ [(dict, c.sslData, c.secured)] }

/-- The end of a session, for a client that has heard of it. -/
def LockdownClient.sessionEnded (c : LockdownClient) : LockdownClient :=
  { c with
    sessionId := none
    sslEnabled := false
    sslData := if c.sslEnabled then (disableSsl c.sslData).2 else c.sslData
    secured := false
    running := false }

def lockdowndStopSession (c : LockdownClient) (sessionId : Option (List UInt8)) (x : Exchange) :
    LockdowndError × LockdownClient :=
  match sessionId with
  | none => (.invalidArg, c)
  | some id =>
    let c := c.send ((newRequest c.label "StopSession").setItem "SessionID" (newString id))
    match x.answer with
    | .failed _ _ => (.plistError, c)
    | .reply dict => (lockdownCheckResult dict (some "StopSession"), c.sessionEnded)

/-- What happens around `lockdownd_start_session`. -/
structure StartExchanges where
  /-- What `userpref_read_system_buid` brings. -/
  systemBuid : Option (List UInt8)
  /-- For the session that is stopped first, if there is one. -/
  stop : Exchange
  start : Exchange
  ssl : SslOutcome

/-- The request of `lockdownd_start_session`. -/
def startRequest (label hostId systemBuid : Option (List UInt8)) : Dict :=
  let dict := newRequest label "StartSession"
  let dict := match hostId with
    | none => dict
    | some id => dict.setItem "HostID" (newString id)
  match systemBuid with
  | none => dict
  | some buid => dict.setItem "SystemBUID" (newString buid)

/-- A session that the device has confirmed with `dict`. -/
def sessionConfirmed (c : LockdownClient) (dict : Dict) (ssl : SslOutcome) :
    LockdowndError × LockdownClient :=
  let useSsl := boolVal (dict.getItem "EnableSessionSSL") ≠ 0
  let c := { c with
    sessionId := ((dict.getItem "SessionID").bind stringVal).or c.sessionId
    secured := useSsl }
  if useSsl then
    let r := enableSsl c.sslData ssl
    let ret := sslResult r.1
    (ret, { c with sslData := r.2, sslEnabled := ret = .success, running := ret = .success })
  else (.success, { c with sslEnabled := false, running := true })

/-- The session that is there is stopped first. -/
def stopRunning (c : LockdownClient) (x : Exchange) : LockdownClient :=
  if c.sessionId = none then c else (lockdowndStopSession c c.sessionId x).2

/-- `lockdownd_start_session`.  What `*session_id` and `*ssl_enabled` become is in the client. -/
def lockdowndStartSession (c : LockdownClient) (hostId : Option (List UInt8)) (x : StartExchanges) :
    LockdowndError × LockdownClient :=
  let c := (stopRunning c x.stop).send (startRequest c.label hostId x.systemBuid)
  if x.start.sent ≠ .success then (x.start.sent, { c with running := false })
  else
    match x.start.answer with
    | .failed _ _ => (.plistError, { c with running := false })
    | .reply dict =>
      let ret := lockdownCheckResult dict (some "StartSession")
      if ret = .success then sessionConfirmed c dict x.ssl
      else (ret, { c with running := false })

/-- The request of `lockdownd_get_value`. -/
def getValueRequest (label : Option (List UInt8)) (domain key : Option String) : Dict :=
  let dict := Dict.addLabel [] label
  let dict := match domain with
    | none => dict
    | some domain => dict.setItem "Domain" (newString (lit domain))
  let dict := match key with
    | none => dict
    | some key => dict.setItem "Key" (newString (lit key))
  dict.setItem "Request" (newString (lit "GetValue"))

/-- What `lockdownd_get_value` makes of the answer, with `*value`. -/
def Exchange.value (x : Exchange) : LockdowndError × Option Plist :=
  if x.sent ≠ .success then (x.sent, none)
  else
    match x.answer with
    | .failed e _ => (e, none)
    | .reply dict =>
      let ret := lockdownCheckResult dict (some "GetValue")
      if ret = .success then (.success, dict.getItem "Value") else (ret, none)

def lockdowndGetValue (c : LockdownClient) (domain key : Option String) (x : Exchange) :
    (LockdowndError × Option Plist) × LockdownClient :=
  (x.value, c.send (getValueRequest c.label domain key))

/-- A function that does nothing without a session. -/
def withSession (c : LockdownClient) (f : LockdowndError × LockdownClient) :
    LockdowndError × LockdownClient :=
  if c.sessionId = none then (.noRunningSession, c) else f

/-- The end of a function that only looks at the result. -/
def Exchange.result (x : Exchange) (request : String) : LockdowndError :=
  match x.answer with
  | .failed _ _ => .plistError
  | .reply dict => lockdownCheckResult dict (some request)

def lockdowndActivate (c : LockdownClient) (activationRecord : Plist) (x : Exchange) :
    LockdowndError × LockdownClient :=
  withSession c (x.result "Activate",
    c.send ((newRequest c.label "Activate").setItem "ActivationRecord" activationRecord))

def lockdowndDeactivate (c : LockdownClient) (x : Exchange) : LockdowndError × LockdownClient :=
  withSession c (x.result "Deactivate", c.send (newRequest c.label "Deactivate"))

/-- `lockdownd_get_sync_data_classes`, without the list it makes of the value. -/
def lockdowndGetSyncDataClasses (c : LockdownClient) (x : Exchange) :
    LockdowndError × LockdownClient :=
  let r := lockdowndGetValue c (some "com.apple.mobile.iTunes") (some "SyncDataClasses") x
  withSession c
    (match r.1 with
      | (.success, some (.array _)) => .success
      | (.success, _) => .plistError
      | (e, _) => e, r.2)

end IDeviceStack.Libimobiledevice
