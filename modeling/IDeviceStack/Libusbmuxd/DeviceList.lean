/-
# `Libusbmuxd.DeviceList` — the devices that the daemon knows

`usbmuxd_get_device_list` asks with `ListDevices`, and where this is refused with `Listen` by
listening to what is announced; a daemon that does not know plists is asked again in the old
protocol.  `usbmuxd_get_device_by_udid` and `idevice_get_device_list` look through the list.

* The daemon is what each connection to it brings: none, or whether the two requests can be sent
  and what arrives.
* `*device_list` is `NULL`, or the entries of the list with the zero entry at its end.
* A payload that is read behind its end, or freed twice, is `outside`.
* There is memory for what is allocated; a collection has fewer than 2³¹ slots.

**Proved here.**  `enumeration_iff`.
-/
import IDeviceStack.Libusbmuxd.ReceivePacket

namespace IDeviceStack.Libusbmuxd

open Lib Usbmuxd
open Libplist hiding plistDictGetItem
open Libplist.Values Libplist.Xplist
open Usbmuxd.Daemon (CommandStop Says readPayload item plistDictGetItem_read
  plistGetStringVal_read)

/-! ## Results -/

def eproto : Int := 134
def enodev : Int := 19

def resultBadversion : UInt32 := 6

/-- Why a call does not return. -/
inductive Stuck where
  /-- A loop goes on without end. -/
  | spins
  | stopped (stop : CommandStop)
  /-- Memory that is not there. -/
  | outside
  deriving DecidableEq, Repr

/-- What `receive_packet` brings, if it returns. -/
structure Packet where
  ret : Int
  header : UsbmuxdHeader
  payload : Payload
  left : Socket

def receive (conv : Conv) (s : Socket) : Except Stuck Packet :=
  match receivePacket conv s with
  | (.returned ret header payload, left) => .ok ⟨ret, header, payload, left⟩
  | (.spins, _) => .error .spins
  | (.stopped stop, _) => .error (.stopped stop)

/-- What `usbmuxd_get_result` brings. -/
structure Answer where
  ret : Int
  result : UInt32
  resultPlist : Option Plist
  left : Socket

/-- `*result = -1`. -/
def noResult : UInt32 := 0xFFFFFFFF

/-- `usbmuxd_get_result`; `wanted` tells whether there is a place for a plist. -/
def usbmuxdGetResult (conv : Conv) (s : Socket) (wanted : Bool) : Except Stuck Answer := do
  let p ← receive conv s
  if p.ret < 0 then .ok ⟨p.ret, noResult, none, p.left⟩
  else if p.ret < sizeofHeader then .ok ⟨-eproto, noResult, none, p.left⟩
  else if p.header.message = messageResult then
    match p.payload with
    | .dwval res => .ok ⟨1, res, none, p.left⟩
    | .bytes res => if 4 ≤ res.length then .ok ⟨1, wordAt res 0, none, p.left⟩ else .error .outside
    | _ => .ok ⟨0, noResult, none, p.left⟩
  else if p.header.message = messagePlist then
    match wanted, p.payload with
    | true, .plist list => .ok ⟨1, 0, some list, p.left⟩
    | true, _ => .ok ⟨1, 0, none, p.left⟩
    | false, _ => .ok ⟨-1, noResult, none, p.left⟩
  else .ok ⟨-eproto, noResult, none, p.left⟩

/-! ## The collection -/

/-- `tmpdevs`, with all the records that were allocated: a pointer is the place of its record. -/
structure TmpDevs where
  infos : List DeviceInfo
  col : Collection

def TmpDevs.init : TmpDevs := ⟨[], collectionInit⟩

def TmpDevs.add (t : TmpDevs) (devinfo : DeviceInfo) : TmpDevs :=
  ⟨t.infos ++ [devinfo], collectionAdd t.infos.length t.col⟩

/-- The first device with a handle, removed and freed. -/
def TmpDevs.remove (t : TmpDevs) (handle : UInt32) : TmpDevs :=
  match t.col.elems.find? fun di => (t.infos[di]?).map DeviceInfo.handle = some handle with
  | some di => { t with col := collectionRemove (some di) t.col }
  | none => t

/-- The entry at the end of a list. -/
def zeroInfo : DeviceInfo := ⟨0, 0, List.replicate 41 0⟩

/-- The copies, and the entry behind them, in memory for `collection_count` and one more. -/
def newList (t : TmpDevs) : Except Stuck (Int × Option (List DeviceInfo)) :=
  let newlist := t.col.elems.filterMap fun di => t.infos[di]?
  if newlist.length < t.col.count + 1 then
    .ok (newlist.length, some (newlist ++ [zeroInfo]))
  else .error .outside

/-! ## The two protocols -/

/-- `device_record_from_plist`; without properties every member is 0. -/
def deviceRecordOf : Option Plist → Except Abort DeviceRecord
  | some props => deviceRecordFromPlist props
  | none => .ok ⟨0, 0, serialNumber []⟩

/-- An entry of the `DeviceList`. -/
def listedInfo (pdev : Plist) : Except Abort DeviceInfo := do
  let dev ← deviceRecordOf (← plistDictGetItem pdev (lit "Properties"))
  .ok dev.info

/-- The loop over the `DeviceList`. -/
def collectListed (t : TmpDevs) : List Plist → Except Abort TmpDevs
  | [] => .ok t
  | pdev :: devlist => do
      let devinfo ← listedInfo pdev
      collectListed (t.add devinfo) devlist

/-- `device_info_from_device_record`, of the payload of a `MESSAGE_DEVICE_ADD`. -/
def deviceInfoOf : Payload → Except Stuck (Option DeviceInfo)
  | .record dev => .ok (some dev.info)
  | .bytes dev =>
    if 47 ≤ dev.length then
      .ok (some ⟨wordAt dev 0, UInt16.ofNat (leVal ((dev.drop 4).take 2)),
        udidOf ((dev.drop 6).take 41) (wordAt dev 0)⟩)
    else .error .outside
  | .null => .ok none
  | _ => .error .outside

/-- The handle in the payload of a `MESSAGE_DEVICE_REMOVE`. -/
def handleOf : Payload → Except Stuck UInt32
  | .dwval handle => .ok handle
  | .bytes payload => if 4 ≤ payload.length then .ok (wordAt payload 0) else .error .outside
  | _ => .error .outside

/-- One message; without a record the call gives up. -/
def takeMessage (t : TmpDevs) (p : Packet) : Except Stuck (Option TmpDevs) :=
  if p.header.message = messageDeviceAdd then
    (deviceInfoOf p.payload).map fun devinfo => devinfo.map t.add
  else if p.header.message = messageDeviceRemove then
    (handleOf p.payload).map fun handle => some (t.remove handle)
  else .ok (some t)

/-- Whether `payload` points to something. -/
def Payload.isSet : Payload → Bool
  | .kept | .null => false
  | _ => true

/-- The loop that listens; `dangling` tells that `payload` points to what was freed. -/
def collectAnnounced (conv : Conv) : Nat → Bool → TmpDevs → Socket →
    Except Stuck (Option TmpDevs)
  | 0, _, _, _ => .error .spins
  | fuel + 1, dangling, t, s => do
      let p ← receive conv s
      if p.ret ≤ 0 then .ok (some t)
      else
        match p.payload, dangling with
        | .kept, true => .error .outside
        | _, _ =>
          match ← takeMessage t p with
          | none => .ok none
          | some t => collectAnnounced conv fuel p.payload.isSet t p.left

/-! ## The call -/

/-- The flags that outlive a call. -/
structure Flags where
  protoVersion : Nat
  tryListDevices : Bool
  deriving DecidableEq, Repr

/-- What a connection to the daemon brings. -/
inductive Attempt where
  | refused (errno : Nat)
  | opened (listSent listenSent : Bool) (s : Socket)

inductive Outcome where
  | returned (n : Int) (deviceList : Option (List DeviceInfo))
  | retry (flags : Flags)

/-- What arrives costs a turn for every byte, and for every timeout or error. -/
def cost : List Arrival → Nat
  | [] => 0
  | .segment _ more :: arrivals => more.length + 1 + cost arrivals
  | _ :: arrivals => 1 + cost arrivals

/-- The `DeviceList` of an answer. -/
def deviceListOf (list : Option Plist) : Except Abort (Option (List Plist)) :=
  match list with
  | none => .ok none
  | some list => do
      match ← plistDictGetItem list (lit "DeviceList") with
      | some (.array devlist) => .ok (some devlist)
      | _ => .ok none

def abortStuck {α : Type} (x : Except Abort α) : Except Stuck α :=
  x.mapError fun a => .stopped (.abort a)

def gotDeviceList (t : TmpDevs) : Except Stuck Outcome := do
  let (n, list) ← newList t
  .ok (.returned n list)

/-- From the `Listen` on. -/
def listenDevices (conv : Conv) (flags : Flags) (listenSent : Bool) (s : Socket) :
    Except Stuck Outcome :=
  if listenSent then do
    let answer ← usbmuxdGetResult conv s false
    if answer.ret = 1 ∧ answer.result = 0 then
      match ← collectAnnounced conv (cost answer.left.arrivals + 1) false .init answer.left with
      | some t => gotDeviceList t
      | none => .ok (.returned (-1) none)
    else if answer.result = resultBadversion ∧ flags.protoVersion = 1 then
      .ok (.retry { flags with protoVersion := 0 })
    else .ok (.returned answer.result.toBitVec.toInt none)
  else .ok (.returned (-1) none)

/-- From the answer to a `ListDevices` on. -/
def takeDeviceList (conv : Conv) (flags : Flags) (listenSent : Bool) (answer : Answer) :
    Except Stuck Outcome := do
  match ← abortStuck (deviceListOf answer.resultPlist) with
  | some devlist => gotDeviceList (← abortStuck (collectListed .init devlist))
  | none => listenDevices conv flags listenSent answer.left

/-- One turn of `retry`. -/
def askDevices (conv : Conv) (flags : Flags) : Attempt → Except Stuck Outcome
  | .refused errno => .ok (.returned (-(errno + 1)) none)
  | .opened listSent listenSent s =>
    if flags.protoVersion = 1 ∧ flags.tryListDevices ∧ listSent then do
      let answer ← usbmuxdGetResult conv s true
      if answer.ret = 1 ∧ answer.result = 0 then takeDeviceList conv flags listenSent answer
      else
        .ok (.retry ⟨if answer.result = resultBadversion then 0 else flags.protoVersion, false⟩)
    else listenDevices conv flags listenSent s

/-- The turns of `retry`, from the `i`-th connection on. -/
def getDeviceList (conv : Conv) (daemon : Nat → Attempt) :
    Nat → Nat → Flags → Except Stuck (Int × Option (List DeviceInfo))
  | 0, _, _ => .error .spins
  | fuel + 1, i, flags => do
      match ← askDevices conv flags (daemon i) with
      | .returned n list => .ok (n, list)
      | .retry flags => getDeviceList conv daemon fuel (i + 1) flags

/-- `usbmuxd_get_device_list`: each of the flags is cleared once at most. -/
def usbmuxdGetDeviceList (conv : Conv) (daemon : Nat → Attempt) (flags : Flags) :
    Except Stuck (Int × Option (List DeviceInfo)) :=
  getDeviceList conv daemon 3 0 flags

/-! ## Its callers -/

inductive CallerFault where
  | stuck (stuck : Stuck)
  /-- `dev_list[0]` of a list that is `NULL`. -/
  | nullList
  /-- An entry behind the end of the list. -/
  | behind
  deriving DecidableEq, Repr

/-- The list, or `none` for a negative result. -/
def callerList : Except Stuck (Int × Option (List DeviceInfo)) →
    Except CallerFault (Option (List DeviceInfo))
  | .error stuck => .error (.stuck stuck)
  | .ok (n, list) =>
    if n < 0 then .ok none
    else
      match list with
      | some list => .ok (some list)
      | none => .error .nullList

/-- The loop of `usbmuxd_get_device_by_udid`; without a UDID every device will do. -/
def findUdid (udid : Option (List UInt8)) : List DeviceInfo → Except CallerFault (Option DeviceInfo)
  | [] => .error .behind
  | dev :: devList =>
    if dev.handle = 0 then .ok none
    else if udid.all (streq · dev.udid) then .ok (some dev)
    else findUdid udid devList

/-- `usbmuxd_get_device_by_udid`: the result, and what `device` is set to. -/
def usbmuxdGetDeviceByUdid (list : Except Stuck (Int × Option (List DeviceInfo)))
    (udid : Option (List UInt8)) : Except CallerFault (Int × Option DeviceInfo) := do
  match ← callerList list with
  | none => .ok (-enodev, none)
  | some devList =>
    match ← findUdid udid devList with
    | some dev => .ok (1, some dev)
    | none => .ok (0, none)

/-- The loop of `idevice_get_device_list`. -/
def udidsOf : List DeviceInfo → Except CallerFault (List (List UInt8))
  | [] => .error .behind
  | dev :: devList => if dev.handle = 0 then .ok [] else (udidsOf devList).map (cstr dev.udid :: ·)

/-- `idevice_get_device_list`; `none` is `IDEVICE_E_NO_DEVICE`. -/
def ideviceGetDeviceList (list : Except Stuck (Int × Option (List DeviceInfo))) :
    Except CallerFault (Option (List (List UInt8))) := do
  match ← callerList list with
  | none => .ok none
  | some devList => (udidsOf devList).map some

/-! ## What is expected -/

/-- A result that is not negative comes with a list of so many entries and the zero entry. -/
def Complete (r : Int × Option (List DeviceInfo)) : Prop :=
  0 ≤ r.1 → ∃ devs : List DeviceInfo, r.2 = some (devs ++ [zeroInfo]) ∧ (devs.length : Int) = r.1

/-- The result is complete, and the callers get through it. -/
def EnumerationRight (conv : Conv) (daemon : Nat → Attempt) (flags : Flags) : Prop :=
  Yields (usbmuxdGetDeviceList conv daemon flags) fun r =>
    Complete r ∧ (∀ udid, Yields (usbmuxdGetDeviceByUdid (.ok r) udid) fun _ => True) ∧
      Yields (ideviceGetDeviceList (.ok r)) fun _ => True

/-- There is a record in the payload. -/
def Payload.HasRecord : Payload → Prop
  | .record _ => True
  | .bytes dev => 47 ≤ dev.length
  | _ => False

/-- There is a handle in the payload. -/
def Payload.HasHandle : Payload → Prop
  | .dwval _ => True
  | .bytes payload => 4 ≤ payload.length
  | _ => False

/-- A message that the loop takes in and goes on. -/
structure Takeable (dangling : Bool) (p : Packet) : Prop where
  /-- A payload that is not set is not freed once more. -/
  set : dangling = true → p.payload ≠ .kept
  record : p.header.message = messageDeviceAdd → p.payload.HasRecord
  handle : p.header.message = messageDeviceRemove → p.payload.HasHandle

/-- What arrives behind an accepted `Listen` can be taken in. -/
inductive Announced (conv : Conv) : Bool → Socket → Prop where
  | ended {dangling : Bool} {s : Socket} {p : Packet} :
      receive conv s = .ok p → p.ret ≤ 0 → Announced conv dangling s
  | noRecord {dangling : Bool} {s : Socket} {p : Packet} :
      receive conv s = .ok p → 0 < p.ret → p.header.message = messageDeviceAdd →
        p.payload = .null → Announced conv dangling s
  | next {dangling : Bool} {s : Socket} {p : Packet} :
      receive conv s = .ok p → 0 < p.ret → Takeable dangling p →
        Announced conv p.payload.isSet p.left → Announced conv dangling s

/-- The answer to a `Listen` is received; it is an acceptance, and what follows can be taken in, or
it leads to another connection, or its code is a negative `int`. -/
def ListenFine (conv : Conv) (flags : Flags) (again : Flags → Prop) (listenSent : Bool)
    (s : Socket) : Prop :=
  listenSent = true → Yields (usbmuxdGetResult conv s false) fun answer =>
    if answer.ret = 1 ∧ answer.result = 0 then Announced conv false answer.left
    else if answer.result = resultBadversion ∧ flags.protoVersion = 1 then
      again { flags with protoVersion := 0 }
    else 2 ^ 31 ≤ answer.result.toNat

/-- The serial numbers of a list can be read; without a list it is the turn of the `Listen`. -/
def ListedFine (conv : Conv) (flags : Flags) (again : Flags → Prop) (listenSent : Bool)
    (answer : Answer) : Prop :=
  match answer.resultPlist.bind fun list => item list (lit "DeviceList") with
  | some (.array devlist) =>
    ∀ pdev ∈ devlist, ∀ props, item pdev (lit "Properties") = some props → SerialOk props
  | _ => ListenFine conv flags again listenSent answer.left

/-- The answer to a `ListDevices` is received; it is a list, or leads to a `Listen`, or to another
connection. -/
def AskFine (conv : Conv) (flags : Flags) (again : Flags → Prop) : Attempt → Prop
  | .refused _ => True
  | .opened listSent listenSent s =>
    if flags.protoVersion = 1 ∧ flags.tryListDevices ∧ listSent then
      Yields (usbmuxdGetResult conv s true) fun answer =>
        if answer.ret = 1 ∧ answer.result = 0 then
          ListedFine conv flags again listenSent answer
        else again ⟨if answer.result = resultBadversion then 0 else flags.protoVersion, false⟩
    else ListenFine conv flags again listenSent s

/-- All the connections are. -/
def Enumerable (conv : Conv) (daemon : Nat → Attempt) : Nat → Nat → Flags → Prop
  | 0, _, _ => False
  | fuel + 1, i, flags =>
    AskFine conv flags (Enumerable conv daemon fuel (i + 1)) (daemon i)

/-! ## Every turn of a loop costs something -/

section Cost

variable {conv : Conv} {s : Socket}

theorem cost_putBack (more : List UInt8) (arrivals : List Arrival) :
    cost (putBack more arrivals) = more.length + cost arrivals := by
  cases more with
  | nil => exact (Nat.zero_add _).symm
  | cons b more => rfl

theorem cost_socketReceive (s : Socket) (length : Nat) :
    cost (socketReceive s length).2.arrivals ≤ cost s.arrivals ∧
      ∀ got, (socketReceive s length).1 = .ok got →
        got.length + cost (socketReceive s length).2.arrivals ≤ cost s.arrivals := by
  obtain ⟨arrivals, closed⟩ := s
  match arrivals with
  | [] =>
    cases closed with
    | true => exact ⟨Nat.le_refl _, fun _ h => nomatch h⟩
    | false => exact ⟨Nat.le_refl _, fun _ h => Except.ok.inj h ▸ Nat.le_refl _⟩
  | .timeout :: arrivals =>
    refine ⟨Nat.le_add_left _ _, ?_⟩
    rintro _ ⟨⟩
    exact Nat.add_le_add_right (Nat.zero_le 1) _
  | .failed errno :: arrivals => exact ⟨Nat.le_add_left _ _, fun _ h => nomatch h⟩
  | .segment b more :: arrivals =>
    rw [socketReceive_segment]
    have hcost : ((b :: more).take length).length +
        cost (putBack ((b :: more).drop length) arrivals) = cost (.segment b more :: arrivals) := by
      rw [cost_putBack, List.length_take, List.length_drop, cost, List.length_cons]
      omega
    refine ⟨Nat.le_trans (Nat.le_add_left _ _) (Nat.le_of_eq hcost), ?_⟩
    rintro _ ⟨⟩
    exact Nat.le_of_eq hcost

theorem socketReceive_error {length : Nat} {code : Int}
    (h : (socketReceive s length).1 = .error code) : code < 0 := by
  obtain ⟨arrivals, closed⟩ := s
  match arrivals with
  | [] =>
    cases closed with
    | true =>
      cases h
      decide
    | false => cases h
  | .timeout :: arrivals => cases h
  | .failed errno :: arrivals =>
    cases h
    omega
  | .segment b more :: arrivals => cases h

theorem cost_receivePayload (fuel : Nat) (s : Socket) (missing : Nat) (got : List UInt8) :
    cost (receivePayload fuel s missing got).2.arrivals ≤ cost s.arrivals := by
  induction fuel generalizing s missing got with
  | zero => exact Nat.le_refl _
  | succ fuel ih =>
    have hcost := (cost_socketReceive s missing).1
    rw [receivePayload]
    split
    · next heq =>
      rw [heq] at hcost
      exact hcost
    · next heq =>
      rw [heq] at hcost
      split
      · exact Nat.le_trans (ih _ _ _) hcost
      · exact hcost

theorem cost_receiveBody (conv : Conv) (s : Socket) (hdr : UsbmuxdHeader) :
    cost (receiveBody conv s hdr).2.arrivals ≤ cost s.arrivals := by
  rw [receiveBody]
  split
  · have hcost := cost_receivePayload (s.arrivals.length + 1) s
      (hdr.length - UInt32.ofNat sizeofHeader).toNat []
    split <;> next heq => rw [heq] at hcost; exact hcost
  · exact Nat.le_refl _

theorem cost_receive {p : Packet} (h : receive conv s = .ok p) (hret : 0 < p.ret) :
    cost p.left.arrivals < cost s.arrivals := by
  obtain ⟨hle, hgot⟩ := cost_socketReceive s sizeofHeader
  have herror : ∀ code, (socketReceive s sizeofHeader).1 = .error code → code < 0 := fun _ =>
    socketReceive_error
  rw [receive, receivePacket] at h
  generalize socketReceive s sizeofHeader = r at h hle hgot herror
  obtain ⟨got | got, left⟩ := r
  · dsimp only at h
    cases h
    have := herror got rfl
    exact absurd hret (Int.not_lt.2 (Int.le_of_lt this))
  · have hcost := hgot got rfl
    dsimp only at h hcost
    split at h
    · next hrun =>
      cases h
      split at hrun
      · cases hrun
        dsimp only at hret ⊢
        omega
      · next hlong =>
        have hbody := cost_receiveBody conv left (.ofBytes got)
        rw [hrun] at hbody
        have : sizeofHeader = 16 := rfl
        dsimp only at hbody ⊢
        omega
    · cases h
    · cases h

end Cost

/-! ## The loop that listens -/

section Listening

variable {conv : Conv} {s : Socket} {p : Packet} {dangling : Bool} {t : TmpDevs}

theorem deviceInfoOf_some (payload : Payload) :
    (∃ devinfo, deviceInfoOf payload = .ok (some devinfo)) ↔ payload.HasRecord := by
  cases payload with
  | record dev => exact iff_of_true ⟨_, rfl⟩ trivial
  | bytes dev =>
    rw [deviceInfoOf]
    split
    · next hlen => exact iff_of_true ⟨_, rfl⟩ hlen
    · next hlen => exact iff_of_false (fun ⟨_, h⟩ => nomatch h) hlen
  | _ => exact iff_of_false (fun ⟨_, h⟩ => nomatch h) id

theorem deviceInfoOf_none (payload : Payload) :
    deviceInfoOf payload = .ok none ↔ payload = .null := by
  cases payload with
  | null => exact iff_of_true rfl rfl
  | bytes dev =>
    rw [deviceInfoOf]
    split <;> exact iff_of_false (fun h => nomatch h) fun h => nomatch h
  | _ => exact iff_of_false (fun h => nomatch h) fun h => nomatch h

theorem handleOf_ok (payload : Payload) :
    (∃ handle, handleOf payload = .ok handle) ↔ payload.HasHandle := by
  cases payload with
  | dwval handle => exact iff_of_true ⟨_, rfl⟩ trivial
  | bytes dev =>
    rw [handleOf]
    split
    · next hlen => exact iff_of_true ⟨_, rfl⟩ hlen
    · next hlen => exact iff_of_false (fun ⟨_, h⟩ => nomatch h) hlen
  | _ => exact iff_of_false (fun ⟨_, h⟩ => nomatch h) id

theorem map_eq_ok {ε α β : Type} {x : Except ε α} {f : α → β} {b : β} :
    x.map f = .ok b ↔ ∃ a, x = .ok a ∧ f a = b := by
  cases x with
  | error e => exact ⟨fun h => (nomatch h), fun ⟨_, h, _⟩ => (nomatch h)⟩
  | ok a => exact ⟨fun h => ⟨a, rfl, Except.ok.inj h⟩, fun ⟨_, h, hb⟩ => by cases h; cases hb; rfl⟩

theorem takeMessage_some (t : TmpDevs) (p : Packet) : (∃ t', takeMessage t p = .ok (some t')) ↔
    (p.header.message = messageDeviceAdd → p.payload.HasRecord) ∧
      (p.header.message = messageDeviceRemove → p.payload.HasHandle) := by
  rw [takeMessage]
  split
  · next hadd =>
    have hnot : p.header.message ≠ messageDeviceRemove := by
      rw [hadd]
      decide
    rw [← deviceInfoOf_some]
    constructor
    · rintro ⟨t', h⟩
      obtain ⟨devinfo, hinfo, hmap⟩ := map_eq_ok.1 h
      obtain ⟨devinfo, rfl, -⟩ := Option.map_eq_some_iff.1 hmap
      exact ⟨fun _ => ⟨devinfo, hinfo⟩, fun h => absurd h hnot⟩
    · rintro ⟨hrecord, -⟩
      obtain ⟨devinfo, hinfo⟩ := hrecord hadd
      exact ⟨t.add devinfo, map_eq_ok.2 ⟨_, hinfo, rfl⟩⟩
  next hadd =>
  split
  · next hremove =>
    rw [← handleOf_ok]
    constructor
    · rintro ⟨t', h⟩
      obtain ⟨handle, hhandle, -⟩ := map_eq_ok.1 h
      exact ⟨fun h => absurd h hadd, fun _ => ⟨handle, hhandle⟩⟩
    · rintro ⟨-, hhandle⟩
      obtain ⟨handle, hhandle⟩ := hhandle hremove
      exact ⟨t.remove handle, map_eq_ok.2 ⟨_, hhandle, rfl⟩⟩
  · next hremove =>
    exact iff_of_true ⟨t, rfl⟩ ⟨fun h => absurd h hadd, fun h => absurd h hremove⟩

theorem takeMessage_none (t : TmpDevs) (p : Packet) : takeMessage t p = .ok none ↔
    p.header.message = messageDeviceAdd ∧ p.payload = .null := by
  rw [takeMessage]
  split
  · next hadd =>
    rw [map_eq_ok, ← deviceInfoOf_none]
    constructor
    · rintro ⟨devinfo, hinfo, hmap⟩
      rw [Option.map_eq_none_iff.1 hmap] at hinfo
      exact ⟨hadd, hinfo⟩
    · rintro ⟨-, hinfo⟩
      exact ⟨none, hinfo, rfl⟩
  next hadd =>
  refine iff_of_false (fun h => ?_) fun h => hadd h.1
  split at h
  · obtain ⟨_, -, h⟩ := map_eq_ok.1 h
    cases h
  · cases h

variable {fuel : Nat}

theorem collectAnnounced_turn (h : receive conv s = .ok p) (hret : 0 < p.ret)
    (hset : dangling = true → p.payload ≠ .kept) :
    collectAnnounced conv (fuel + 1) dangling t s = takeMessage t p >>= fun r => match r with
      | none => .ok none
      | some t => collectAnnounced conv fuel p.payload.isSet t p.left := by
  rw [collectAnnounced, h]
  refine (if_neg (Int.not_le.2 hret)).trans ?_
  split
  · next hkept => exact absurd hkept (hset rfl)
  · rfl

theorem collectAnnounced_over (h : receive conv s = .ok p) (hret : p.ret ≤ 0) :
    collectAnnounced conv (fuel + 1) dangling t s = .ok (some t) := by
  rw [collectAnnounced, h]
  exact if_pos hret

theorem collectAnnounced_twice {fuel : Nat} (h : receive conv s = .ok p) (hret : 0 < p.ret)
    (hkept : p.payload = .kept) : collectAnnounced conv (fuel + 1) true t s = .error .outside := by
  rw [collectAnnounced, h]
  refine (if_neg (Int.not_le.2 hret)).trans ?_
  rw [hkept]

/-- **Listening.**  The loop is at its end after as many turns as there are bytes and timeouts,
exactly if every message can be taken in. -/
theorem yields_collectAnnounced (hfuel : cost s.arrivals < fuel) :
    Yields (collectAnnounced conv fuel dangling t s) (fun _ => True) ↔
      Announced conv dangling s := by
  constructor
  · intro h
    clear hfuel
    induction fuel generalizing dangling t s with
    | zero => exact absurd h fun ⟨_, h, _⟩ => nomatch h
    | succ fuel ih =>
      cases hrecv : receive conv s with
      | error stuck =>
        rw [collectAnnounced, hrecv] at h
        exact absurd h fun ⟨_, h, _⟩ => nomatch h
      | ok p =>
        by_cases hret : p.ret ≤ 0
        · exact .ended hrecv hret
        have hret := Int.not_le.1 hret
        by_cases hset : dangling = true → p.payload ≠ .kept
        swap
        · push Not at hset
          rw [hset.1, collectAnnounced_twice hrecv hret hset.2] at h
          exact absurd h fun ⟨_, h, _⟩ => nomatch h
        rw [collectAnnounced_turn hrecv hret hset, yields_bind] at h
        obtain ⟨r, htake, h⟩ := h
        cases r with
        | none =>
          obtain ⟨hadd, hnull⟩ := (takeMessage_none t p).1 htake
          exact .noRecord hrecv hret hadd hnull
        | some t' =>
          obtain ⟨hrecord, hhandle⟩ := (takeMessage_some t p).1 ⟨t', htake⟩
          exact .next hrecv hret ⟨hset, hrecord, hhandle⟩ (ih h)
  · intro h
    induction h generalizing fuel t with
    | ended hrecv hret =>
      obtain ⟨fuel, rfl⟩ := Nat.exists_eq_succ_of_ne_zero (Nat.ne_of_gt (Nat.zero_lt_of_lt hfuel))
      exact ⟨_, collectAnnounced_over hrecv hret, trivial⟩
    | @noRecord dangling s p hrecv hret hadd hnull =>
      obtain ⟨fuel, rfl⟩ := Nat.exists_eq_succ_of_ne_zero (Nat.ne_of_gt (Nat.zero_lt_of_lt hfuel))
      have hset : dangling = true → p.payload ≠ .kept := by
        rw [hnull]
        exact fun _ h => nomatch h
      rw [collectAnnounced_turn hrecv hret hset, (takeMessage_none t p).2 ⟨hadd, hnull⟩]
      exact ⟨none, rfl, trivial⟩
    | @next dangling s p hrecv hret htakeable _ ih =>
      obtain ⟨fuel, rfl⟩ := Nat.exists_eq_succ_of_ne_zero (Nat.ne_of_gt (Nat.zero_lt_of_lt hfuel))
      obtain ⟨t', htake⟩ := (takeMessage_some t p).2 ⟨htakeable.record, htakeable.handle⟩
      have hcost := cost_receive hrecv hret
      rw [collectAnnounced_turn hrecv hret htakeable.set, htake]
      exact ih (by omega)

end Listening

/-! ## The call -/

section Call

variable {conv : Conv} {s : Socket} {flags : Flags} {again : Flags → Prop}

/-- An outcome that is right, or leads to another turn that is. -/
def Outcome.Right (again : Flags → Prop) : Outcome → Prop
  | .returned n list => Complete (n, list)
  | .retry flags => again flags

theorem complete_negative {n : Int} (h : n < 0) (list : Option (List DeviceInfo)) :
    Complete (n, list) := fun hn => absurd h (Int.not_lt.2 hn)

theorem newList_eq (t : TmpDevs) : ∃ devs : List DeviceInfo,
    newList t = .ok (devs.length, some (devs ++ [zeroInfo])) := by
  have hlen : (t.col.elems.filterMap fun di => t.infos[di]?).length < t.col.count + 1 := by
    have hcount : t.col.elems.length = t.col.count := by
      rw [Collection.elems, Collection.count, List.length_filterMap_eq_countP]
      rfl
    rw [← hcount]
    exact Nat.lt_succ_of_le (List.length_filterMap_le _ _)
  exact ⟨_, if_pos hlen⟩

theorem gotDeviceList_right (t : TmpDevs) : Yields (gotDeviceList t) (Outcome.Right again) := by
  obtain ⟨devs, hnew⟩ := newList_eq t
  rw [gotDeviceList, hnew]
  exact ⟨_, rfl, fun _ => ⟨devs, rfl, rfl⟩⟩

variable {α : Type}

theorem yields_congr {ε : Type} {x : Except ε α} {P Q : α → Prop}
    (h : ∀ a, x = .ok a → (P a ↔ Q a)) : Yields x P ↔ Yields x Q :=
  ⟨fun ⟨a, ha, hp⟩ => ⟨a, ha, (h a ha).1 hp⟩, fun ⟨a, ha, hq⟩ => ⟨a, ha, (h a ha).2 hq⟩⟩

theorem complete_result (result : UInt32) :
    Complete (result.toBitVec.toInt, none) ↔ 2 ^ 31 ≤ result.toNat := by
  have htoNat : result.toBitVec.toNat = result.toNat := rfl
  have hlt := result.toNat_lt
  rw [BitVec.toInt_eq_toNat_cond, htoNat]
  split
  · refine iff_of_false (fun h => ?_) (by omega)
    obtain ⟨devs, hnone, -⟩ := h (by simp)
    cases hnone
  · exact iff_of_true (complete_negative (by simp; omega) none) (by omega)

theorem yields_listenDevices (listenSent : Bool) (s : Socket) :
    Yields (listenDevices conv flags listenSent s) (Outcome.Right again) ↔
      ListenFine conv flags again listenSent s := by
  cases listenSent with
  | false => exact iff_of_true ⟨_, rfl, complete_negative (by decide) none⟩ fun h => nomatch h
  | true =>
    rw [listenDevices, if_pos rfl, yields_bind, ListenFine]
    refine Iff.trans (yields_congr fun answer _ => ?_) ⟨fun h _ => h, fun h => h rfl⟩
    split
    · rw [yields_bind, ← yields_collectAnnounced (Nat.lt_succ_self _)]
      refine yields_congr fun r _ => iff_of_true ?_ trivial
      cases r with
      | none => exact ⟨_, rfl, complete_negative (by decide) none⟩
      | some t => exact gotDeviceList_right t
    · split
      · exact yields_ok
      · exact yields_ok.trans (complete_result answer.result)

theorem bind_eq_ok {ε β : Type} {x : Except ε α} {f : α → Except ε β} {b : β}
    (h : x >>= f = .ok b) : ∃ a, x = .ok a ∧ f a = .ok b := by
  cases x with
  | error e => cases h
  | ok a => exact ⟨a, rfl, h⟩

variable {dict t : Plist} {hdr header : UsbmuxdHeader} {ret : Int}

theorem handleMessage_payload {message : UInt32} :
    handleMessage hdr dict message ≠ .ok (.returned ret header (.plist t)) := by
  intro h
  obtain ⟨node, -, h⟩ := bind_eq_ok h
  cases node with
  | none => cases h
  | some node =>
    obtain ⟨val, -, h⟩ := bind_eq_ok h
    cases h

theorem messageOf_payload {message : List UInt8} :
    messageOf hdr dict message ≠ .ok (.returned ret header (.plist t)) := by
  intro h
  rw [messageOf] at h
  split at h
  · obtain ⟨node, -, h⟩ := bind_eq_ok h
    obtain ⟨val, -, h⟩ := bind_eq_ok h
    cases h
  split at h
  · obtain ⟨props, -, h⟩ := bind_eq_ok h
    cases props with
    | none => cases h
    | some props =>
      obtain ⟨dev, -, h⟩ := bind_eq_ok h
      cases h
  split at h
  · exact handleMessage_payload h
  split at h
  · exact handleMessage_payload h
  · cases h

theorem plistPacket_payload (h : plistPacket hdr dict = .ok (.returned ret header (.plist t))) :
    t = dict := by
  obtain ⟨node, -, h⟩ := bind_eq_ok h
  cases node with
  | none =>
    cases h
    rfl
  | some node =>
    dsimp only at h
    split at h
    · cases h
      rfl
    · obtain ⟨message, -, h⟩ := bind_eq_ok h
      exact absurd h messageOf_payload

theorem packetOf_payload (conv : Conv) {payload : List UInt8}
    (h : packetOf conv hdr payload = .returned ret header (.plist t)) : FromXml t := by
  rw [packetOf] at h
  split at h
  · split at h
    · cases h
    · cases h
    · next dict hread =>
      split at h
      · cases h
      · next r hpacket =>
        rw [h] at hpacket
        rw [plistPacket_payload hpacket]
        exact readPayload_tree hread
  · simp only [returnHeader, Received.returned.injEq] at h
    obtain ⟨-, -, h⟩ := h
    split at h <;> cases h

theorem receive_plist {p : Packet} (h : receive conv s = .ok p) (hpayload : p.payload = .plist t) :
    FromXml t := by
  rw [receive] at h
  split at h
  · next ret header payload left hrun =>
    cases h
    dsimp only at hpayload
    rw [hpayload] at hrun
    have hrun := congrArg Prod.fst hrun
    rw [receivePacket] at hrun
    split at hrun
    · cases hrun
    split at hrun
    · cases hrun
    rw [receiveBody] at hrun
    split at hrun
    · split at hrun
      · exact packetOf_payload conv hrun
      · cases hrun
      · cases hrun
    · exact packetOf_payload conv hrun
  · cases h
  · cases h

variable {answer : Answer}

theorem result_plist (h : usbmuxdGetResult conv s true = .ok answer)
    (ht : answer.resultPlist = some t) : FromXml t := by
  rw [usbmuxdGetResult] at h
  obtain ⟨p, hrecv, h⟩ := bind_eq_ok h
  split at h
  · cases h
    cases ht
  split at h
  · cases h
    cases ht
  split at h
  · split at h
    · cases h
      cases ht
    · split at h
      · cases h
        cases ht
      · cases h
    · cases h
      cases ht
  split at h
  · split at h
    · next hpayload =>
      cases h
      cases ht
      exact receive_plist hrecv hpayload
    · cases h
      cases ht
    · next hfalse =>
      cases h
      cases ht
  · cases h
    cases ht

theorem yields_listedInfo {pdev : Plist} (h : FromXml pdev) :
    Yields (listedInfo pdev) (fun _ => True) ↔
      ∀ props, item pdev (lit "Properties") = some props → SerialOk props := by
  have hread := (plistDictGetItem_read h (lit "Properties")).2
  rw [listedInfo, yields_bind, yields_item h, yields_bind]
  cases hnode : item pdev (lit "Properties") with
  | none => exact iff_of_true ⟨_, rfl, _, rfl, trivial⟩ fun _ heq => nomatch heq
  | some props =>
    rw [deviceRecordOf, yields_deviceRecord (hread _ hnode) fun _ => yields_ok]
    exact ⟨fun hs _ heq => Option.some.inj heq ▸ hs.1, fun hs => ⟨hs _ rfl, trivial⟩⟩

variable {devlist : List Plist}

theorem yields_collectListed (h : ∀ pdev ∈ devlist, FromXml pdev) (t : TmpDevs) :
    Yields (collectListed t devlist) (fun _ => True) ↔
      ∀ pdev ∈ devlist, ∀ props, item pdev (lit "Properties") = some props → SerialOk props := by
  induction devlist generalizing t with
  | nil => exact iff_of_true (yields_ok.2 trivial) fun _ hm => nomatch hm
  | cons pdev devlist ih =>
    obtain ⟨hpdev, hdevlist⟩ := List.forall_mem_cons.1 h
    rw [collectListed, yields_bind, List.forall_mem_cons, ← yields_listedInfo hpdev,
      ← ih hdevlist t]
    constructor
    · rintro ⟨info, hinfo, hrest⟩
      exact ⟨⟨info, hinfo, trivial⟩, (ih hdevlist t).2 ((ih hdevlist _).1 hrest)⟩
    · rintro ⟨⟨info, hinfo, -⟩, hrest⟩
      exact ⟨info, hinfo, (ih hdevlist _).2 ((ih hdevlist t).1 hrest)⟩

theorem yields_abortStuck {x : Except Abort α} {P : α → Prop} :
    Yields (abortStuck x) P ↔ Yields x P := by
  cases x with
  | error a => exact ⟨fun ⟨_, h, _⟩ => (nomatch h), fun ⟨_, h, _⟩ => (nomatch h)⟩
  | ok a => exact yields_ok.trans yields_ok.symm

theorem deviceListOf_read {list : Option Plist} (h : ∀ t, list = some t → FromXml t) :
    deviceListOf list = .ok (match list.bind fun list => item list (lit "DeviceList") with
      | some (.array devlist) => some devlist
      | _ => none) := by
  cases list with
  | none => rfl
  | some list =>
    rw [deviceListOf, (plistDictGetItem_read (h list rfl) (lit "DeviceList")).1]
    cases hitem : item list (lit "DeviceList") with
    | none =>
      simp only [Option.bind_some, hitem]
      rfl
    | some node => cases node <;> simp only [Option.bind_some, hitem] <;> rfl

theorem yields_takeDeviceList (listenSent : Bool)
    (h : ∀ t, answer.resultPlist = some t → FromXml t) :
    Yields (takeDeviceList conv flags listenSent answer) (Outcome.Right again) ↔
      ListedFine conv flags again listenSent answer := by
  have hitems : ∀ devlist, (answer.resultPlist.bind fun list => item list (lit "DeviceList")) =
      some (.array devlist) → ∀ pdev ∈ devlist, FromXml pdev := by
    intro devlist hdevlist
    obtain ⟨list, hlist, hitem⟩ := Option.bind_eq_some_iff.1 hdevlist
    cases (plistDictGetItem_read (h list hlist) _).2 _ hitem with
    | array hxml => exact hxml
  rw [takeDeviceList, yields_bind, yields_abortStuck, deviceListOf_read h, yields_ok, ListedFine]
  generalize (answer.resultPlist.bind fun list => item list (lit "DeviceList")) = found at hitems ⊢
  match found with
  | none => exact yields_listenDevices listenSent _
  | some (.scalar _ _) => exact yields_listenDevices listenSent _
  | some (.dict _) => exact yields_listenDevices listenSent _
  | some (.array devlist) =>
    dsimp only
    rw [yields_bind, yields_abortStuck, ← yields_collectListed (hitems devlist rfl) .init]
    exact yields_congr fun t _ => iff_of_true (gotDeviceList_right t) trivial

theorem yields_askDevices (a : Attempt) :
    Yields (askDevices conv flags a) (Outcome.Right again) ↔ AskFine conv flags again a := by
  cases a with
  | refused errno => exact iff_of_true ⟨_, rfl, complete_negative (by omega) none⟩ trivial
  | opened listSent listenSent s =>
    rw [askDevices, AskFine]
    split
    · rw [yields_bind]
      refine yields_congr fun answer hanswer => ?_
      split
      · exact yields_takeDeviceList listenSent fun t => result_plist hanswer
      · exact yields_ok
    · exact yields_listenDevices listenSent s

theorem yields_getDeviceList (daemon : Nat → Attempt) (fuel i : Nat) (flags : Flags) :
    Yields (getDeviceList conv daemon fuel i flags) Complete ↔
      Enumerable conv daemon fuel i flags := by
  induction fuel generalizing i flags with
  | zero => exact iff_of_false (fun ⟨_, h, _⟩ => nomatch h) id
  | succ fuel ih =>
    rw [getDeviceList, Enumerable, ← yields_askDevices, yields_bind]
    refine yields_congr fun outcome _ => ?_
    cases outcome with
    | returned n list => exact yields_ok
    | retry flags => exact ih (i + 1) flags

/-! ## The callers -/

theorem findUdid_zero (udid : Option (List UInt8)) (devs : List DeviceInfo) :
    ∃ r, findUdid udid (devs ++ [zeroInfo]) = .ok r := by
  induction devs with
  | nil => exact ⟨none, rfl⟩
  | cons dev devs ih =>
    rw [List.cons_append, findUdid]
    split
    · exact ⟨_, rfl⟩
    split
    · exact ⟨_, rfl⟩
    · exact ih

theorem udidsOf_zero (devs : List DeviceInfo) : ∃ r, udidsOf (devs ++ [zeroInfo]) = .ok r := by
  induction devs with
  | nil => exact ⟨[], rfl⟩
  | cons dev devs ih =>
    rw [List.cons_append, udidsOf]
    split
    · exact ⟨_, rfl⟩
    · obtain ⟨r, hr⟩ := ih
      exact ⟨_, map_eq_ok.2 ⟨r, hr, rfl⟩⟩

theorem callers_ok {r : Int × Option (List DeviceInfo)} (h : Complete r) :
    (∀ udid, Yields (usbmuxdGetDeviceByUdid (.ok r) udid) fun _ => True) ∧
      Yields (ideviceGetDeviceList (.ok r)) fun _ => True := by
  obtain ⟨n, list⟩ := r
  by_cases hn : n < 0
  · have hlist : callerList (.ok (n, list)) = .ok none := if_pos hn
    refine ⟨fun udid => ?_, ?_⟩
    · rw [usbmuxdGetDeviceByUdid, hlist]
      exact ⟨_, rfl, trivial⟩
    · rw [ideviceGetDeviceList, hlist]
      exact ⟨_, rfl, trivial⟩
  · obtain ⟨devs, hdevs, -⟩ := h (Int.not_lt.1 hn)
    have hlist : callerList (.ok (n, list)) = .ok (some (devs ++ [zeroInfo])) := by
      dsimp only at hdevs
      rw [hdevs]
      exact if_neg hn
    refine ⟨fun udid => ?_, ?_⟩
    · obtain ⟨r, hr⟩ := findUdid_zero udid devs
      rw [usbmuxdGetDeviceByUdid, hlist, yields_bind, yields_ok]
      dsimp only
      rw [yields_bind, hr, yields_ok]
      cases r <;> exact ⟨_, rfl, trivial⟩
    · obtain ⟨r, hr⟩ := udidsOf_zero devs
      rw [ideviceGetDeviceList, hlist, yields_bind, yields_ok]
      exact ⟨some r, map_eq_ok.2 ⟨r, hr, rfl⟩, trivial⟩

theorem enumerationRight_iff (daemon : Nat → Attempt) (flags : Flags) :
    EnumerationRight conv daemon flags ↔ Enumerable conv daemon 3 0 flags := by
  rw [← yields_getDeviceList]
  exact yields_congr fun r _ => ⟨And.left, fun h => ⟨h, callers_ok h⟩⟩

/-! ## Two protocols, the same devices -/

/-- What arrives announces devices with these properties, and no more. -/
inductive Announces (conv : Conv) : Socket → List Plist → Prop where
  | ended {s : Socket} {p : Packet} : receive conv s = .ok p → p.ret ≤ 0 → Announces conv s []
  | cons {s left : Socket} {hdr : UsbmuxdHeader} {payload : List UInt8} {dict props : Plist}
      {ps : List Plist} :
      receivePacket conv s = (packetOf conv hdr payload, left) → hdr.message = messagePlist →
        readPayload conv payload = .ok (some dict) → Says dict (lit "Attached") →
        item dict (lit "Properties") = some props → Announces conv left ps →
        Announces conv s (props :: ps)

/-- A list has an entry with each of these properties. -/
def Lists (list : Plist) (ps : List Plist) : Prop :=
  ∃ devlist, item list (lit "DeviceList") = some (.array devlist) ∧
    List.Forall₂ (fun pdev props => item pdev (lit "Properties") = some props) devlist ps

theorem plistPacket_attached (h : FromXml dict) (hspoken : Says dict (lit "Attached")) :
    plistPacket hdr dict = attachedMessage hdr dict := by
  obtain ⟨length, hmessage⟩ := hspoken
  have hget := plistDictGetItem_read h (lit "MessageType")
  have hval := plistGetStringVal_read (hget.2 _ hmessage)
  rw [if_pos (by decide)] at hval
  rw [plistPacket, hget.1, hmessage]
  show (do
    let message ← plistGetStringVal (.scalar (.string (lit "Attached")) length) none
    messageOf hdr dict message) = _
  rw [hval]
  rfl

theorem packetOf_attached {hdr : UsbmuxdHeader} {payload : List UInt8} {dict props : Plist}
    (hplist : hdr.message = messagePlist) (hread : readPayload conv payload = .ok (some dict))
    (hspoken : Says dict (lit "Attached")) (hprops : item dict (lit "Properties") = some props) :
    packetOf conv hdr payload = match deviceRecordFromPlist props with
      | .ok dev => .returned 284 ⟨284, hdr.version, messageDeviceAdd, hdr.tag⟩ (.record dev)
      | .error a => .stopped (.abort a) := by
  have hxml := readPayload_tree hread
  have hattached : attachedMessage hdr dict = (do
      let dev ← deviceRecordFromPlist props
      .ok (.returned 284 ⟨284, hdr.version, messageDeviceAdd, hdr.tag⟩ (.record dev))) := by
    rw [attachedMessage, (plistDictGetItem_read hxml _).1, hprops]
    rfl
  rw [packetOf, if_pos hplist, hread]
  dsimp only
  rw [plistPacket_attached hxml hspoken, hattached]
  cases deviceRecordFromPlist props <;> rfl

variable {ps : List Plist}

/-- **The same devices.**  A loop that listens collects what the loop over a list with the same
properties does. -/
theorem collectAnnounced_announces {fuel : Nat} {dangling : Bool} {t : TmpDevs}
    (h : Announces conv s ps) (hfuel : cost s.arrivals < fuel)
    (hdevlist : List.Forall₂ (fun pdev props => item pdev (lit "Properties") = some props)
      devlist ps) (hxml : ∀ pdev ∈ devlist, FromXml pdev) :
    collectAnnounced conv fuel dangling t s =
      (abortStuck (collectListed t devlist)).map some := by
  induction h generalizing fuel dangling t devlist with
  | ended hrecv hret =>
    obtain ⟨fuel, rfl⟩ := Nat.exists_eq_succ_of_ne_zero (Nat.ne_of_gt (Nat.zero_lt_of_lt hfuel))
    cases hdevlist
    exact collectAnnounced_over hrecv hret
  | @cons s left hdr payload dict props ps hrun hplist hread hspoken hprops _ ih =>
    obtain ⟨fuel, rfl⟩ := Nat.exists_eq_succ_of_ne_zero (Nat.ne_of_gt (Nat.zero_lt_of_lt hfuel))
    obtain ⟨pdev, devlist, hpdev, hrest, rfl⟩ := List.forall₂_cons_right_iff.1 hdevlist
    obtain ⟨hpdevXml, hxml⟩ := List.forall_mem_cons.1 hxml
    have hlisted : listedInfo pdev = (deviceRecordFromPlist props).map DeviceRecord.info := by
      rw [listedInfo, (plistDictGetItem_read hpdevXml _).1, hpdev]
      rfl
    rw [packetOf_attached hplist hread hspoken hprops] at hrun
    rw [collectListed, hlisted]
    cases hdev : deviceRecordFromPlist props with
    | error a =>
      rw [hdev] at hrun
      have hrecv : receive conv s = .error (.stopped (.abort a)) := by rw [receive, hrun]
      rw [collectAnnounced, hrecv]
      rfl
    | ok dev =>
      rw [hdev] at hrun
      have hrecv : receive conv s =
          .ok ⟨284, ⟨284, hdr.version, messageDeviceAdd, hdr.tag⟩, .record dev, left⟩ := by
        rw [receive, hrun]
      have hpos : (0 : Int) < 284 := by decide
      have hcost := cost_receive hrecv hpos
      rw [collectAnnounced_turn hrecv hpos fun _ h => nomatch h]
      exact ih (by dsimp only at hcost; omega) hrest hxml

/-- The first connection answers the `ListDevices` with these properties. -/
def ListsDevices (conv : Conv) (daemon : Nat → Attempt) (flags : Flags) (ps : List Plist) : Prop :=
  flags.protoVersion = 1 ∧ flags.tryListDevices = true ∧ ∃ listenSent s answer list,
    daemon 0 = .opened true listenSent s ∧ usbmuxdGetResult conv s true = .ok answer ∧
      answer.ret = 1 ∧ answer.result = 0 ∧ answer.resultPlist = some list ∧ Lists list ps

/-- The connection accepts the `Listen` and announces these properties. -/
def AcceptsListen (conv : Conv) (a : Attempt) (ps : List Plist) : Prop :=
  ∃ listSent s answer, a = .opened listSent true s ∧ usbmuxdGetResult conv s false = .ok answer ∧
    answer.ret = 1 ∧ answer.result = 0 ∧ Announces conv answer.left ps

/-- `ListDevices` is not used, or is refused on the first connection, and `Listen` is accepted. -/
def FallsBack (conv : Conv) (daemon : Nat → Attempt) (flags : Flags) (ps : List Plist) : Prop :=
  ¬ (flags.protoVersion = 1 ∧ flags.tryListDevices = true) ∧ AcceptsListen conv (daemon 0) ps ∨
    (flags.protoVersion = 1 ∧ flags.tryListDevices = true) ∧
      (∃ listenSent s answer, daemon 0 = .opened true listenSent s ∧
        usbmuxdGetResult conv s true = .ok answer ∧ ¬ (answer.ret = 1 ∧ answer.result = 0)) ∧
      AcceptsListen conv (daemon 1) ps

/-- What is made of a collection, whichever way it came about. -/
def fromList (devlist : List Plist) : Except Stuck Outcome := do
  gotDeviceList (← abortStuck (collectListed .init devlist))

theorem askDevices_lists {listenSent : Bool} {list : Plist}
    (hflags : flags.protoVersion = 1 ∧ flags.tryListDevices = true)
    (hanswer : usbmuxdGetResult conv s true = .ok answer) (hret : answer.ret = 1)
    (hresult : answer.result = 0) (hlist : answer.resultPlist = some list)
    (hitem : item list (lit "DeviceList") = some (.array devlist)) :
    askDevices conv flags (.opened true listenSent s) = fromList devlist := by
  have hread : deviceListOf answer.resultPlist = .ok (some devlist) := by
    rw [deviceListOf_read fun t => result_plist hanswer, hlist, Option.bind_some, hitem]
  rw [askDevices, if_pos ⟨hflags.1, hflags.2, rfl⟩, hanswer]
  refine (if_pos ⟨hret, hresult⟩).trans ?_
  rw [takeDeviceList, hread]
  rfl

theorem listenDevices_announces
    (hanswer : usbmuxdGetResult conv s false = .ok answer) (hret : answer.ret = 1)
    (hresult : answer.result = 0) (hann : Announces conv answer.left ps)
    (hdevlist : List.Forall₂ (fun pdev props => item pdev (lit "Properties") = some props)
      devlist ps) (hxml : ∀ pdev ∈ devlist, FromXml pdev) :
    listenDevices conv flags true s = fromList devlist := by
  rw [listenDevices, if_pos rfl, hanswer]
  refine (if_pos ⟨hret, hresult⟩).trans ?_
  rw [collectAnnounced_announces hann (Nat.lt_succ_self _) hdevlist hxml, fromList]
  cases abortStuck (collectListed .init devlist) <;> rfl

theorem askDevices_listen {listSent listenSent : Bool}
    (hflags : ¬ (flags.protoVersion = 1 ∧ flags.tryListDevices = true)) :
    askDevices conv flags (.opened listSent listenSent s) =
      listenDevices conv flags listenSent s := by
  rw [askDevices, if_neg fun h => hflags ⟨h.1, h.2.1⟩]

theorem getDeviceList_fromList {daemon : Nat → Attempt} {fuel i : Nat}
    (h : askDevices conv flags (daemon i) = fromList devlist) :
    getDeviceList conv daemon (fuel + 1) i flags =
      abortStuck (collectListed .init devlist) >>= newList := by
  rw [getDeviceList, h, fromList]
  cases abortStuck (collectListed .init devlist) with
  | error stuck => rfl
  | ok t =>
    obtain ⟨devs, hnew⟩ := newList_eq t
    show (do
      match ← gotDeviceList t with
      | .returned n list => .ok (n, list)
      | .retry flags => getDeviceList conv daemon fuel (i + 1) flags) = newList t
    rw [gotDeviceList, hnew]
    rfl

theorem getDeviceList_agree {daemon daemon' : Nat → Attempt} {flags' : Flags}
    (hlists : ListsDevices conv daemon flags ps) (hfalls : FallsBack conv daemon' flags' ps) :
    usbmuxdGetDeviceList conv daemon' flags' = usbmuxdGetDeviceList conv daemon flags := by
  obtain ⟨hproto, htry, listenSent, s, answer, list, hdaemon, hanswer, hret, hresult, hlist,
    devlist, hitem, hdevlist⟩ := hlists
  have hxml : ∀ pdev ∈ devlist, FromXml pdev := by
    cases (plistDictGetItem_read (result_plist hanswer hlist) _).2 _ hitem with
    | array hxml => exact hxml
  have hfirst : usbmuxdGetDeviceList conv daemon flags =
      abortStuck (collectListed .init devlist) >>= newList := by
    refine getDeviceList_fromList ?_
    rw [hdaemon]
    exact askDevices_lists ⟨hproto, htry⟩ hanswer hret hresult hlist hitem
  have hlisten : ∀ (flags' : Flags) (i : Nat),
      ¬ (flags'.protoVersion = 1 ∧ flags'.tryListDevices = true) →
      AcceptsListen conv (daemon' i) ps →
        askDevices conv flags' (daemon' i) = fromList devlist := by
    rintro flags' i hflags ⟨listSent, s', answer', ha, hanswer', hret', hresult', hann⟩
    rw [ha, askDevices_listen hflags]
    exact listenDevices_announces hanswer' hret' hresult' hann hdevlist hxml
  rw [hfirst]
  rcases hfalls with ⟨hflags, haccepts⟩ |
    ⟨hflags, ⟨listenSent', s', answer', hd, ha, hne⟩, haccepts⟩
  · exact getDeviceList_fromList (hlisten flags' 0 hflags haccepts)
  · have hretry : askDevices conv flags' (daemon' 0) = .ok (.retry
        ⟨if answer'.result = resultBadversion then 0 else flags'.protoVersion, false⟩) := by
      rw [hd, askDevices, if_pos ⟨hflags.1, hflags.2, rfl⟩, ha]
      exact if_neg hne
    rw [usbmuxdGetDeviceList, getDeviceList, hretry]
    exact getDeviceList_fromList (hlisten _ 1 (fun h => Bool.false_ne_true h.2) haccepts)

end Call

/-- **Enumerating the devices.**  When it goes right; and a daemon that lists some properties and one
that announces them, in `Attached` messages that are plists, bring the same. -/
theorem enumeration_iff (conv : Conv) (daemon : Nat → Attempt) (flags : Flags) :
    (EnumerationRight conv daemon flags ↔ Enumerable conv daemon 3 0 flags) ∧
      ∀ daemon' flags' ps, ListsDevices conv daemon flags ps → FallsBack conv daemon' flags' ps →
        usbmuxdGetDeviceList conv daemon' flags' = usbmuxdGetDeviceList conv daemon flags :=
  ⟨enumerationRight_iff daemon flags, fun _ _ _ hlists hfalls => getDeviceList_agree hlists hfalls⟩

/-- A daemon that refuses everything with `RESULT_BADDEV`. -/
def refusing : Nat → Attempt := fun _ => .opened true true
  ⟨[.segment 20 [0, 0, 0, 0, 0, 0, 0, 1, 0, 0, 0, 1, 0, 0, 0, 2, 0, 0, 0]], false⟩

/-- **Two devices and no list**, for a daemon that refuses, and the callers follow the `NULL`. -/
theorem enumeration_refuted :
    usbmuxdGetDeviceList ⟨fun _ => 0, fun _ => 0, fun _ => 0⟩ refusing ⟨1, true⟩ =
        .ok (2, none) ∧
      usbmuxdGetDeviceByUdid (.ok (2, none)) none = .error .nullList ∧
      ideviceGetDeviceList (.ok (2, none)) = .error .nullList ∧
      ¬ EnumerationRight ⟨fun _ => 0, fun _ => 0, fun _ => 0⟩ refusing ⟨1, true⟩ := by
  have hrun : usbmuxdGetDeviceList ⟨fun _ => 0, fun _ => 0, fun _ => 0⟩ refusing ⟨1, true⟩ =
      .ok (2, none) := by decide +kernel
  refine ⟨hrun, by decide, by decide, ?_⟩
  rintro ⟨r, hr, hcomplete, -⟩
  rw [hrun] at hr
  cases hr
  obtain ⟨devs, hnone, -⟩ := hcomplete (by decide)
  cases hnone

end IDeviceStack.Libusbmuxd
