/-
# `WebkitProxy.DeviceListener` — the stream of device events

`device_listener.c` of the proxy.  `usbmuxd` tells of its devices in packets: a header of 16 bytes,
which begins with the length of the packet, and an XML plist.  The listener keeps the serial of every
device that is attached under its number.

* `plist_from_xml` is that of `Libplist.Xplist`.  Where it leaves its input, or an assertion of an
  accessor fails, the program is `aborted`.
* When `dl_on_recv` returns an error the connection is closed, and nothing arrives any more.
* The callbacks succeed or not; `calls` is what they were called with.
* A plist is a tree, and the keys of its dictionaries are distinct, as the parser makes them.

**Proved here.**  `dlOnRecv_faithful_iff`.
-/
import IDeviceStack.Lib.Fault
import IDeviceStack.Libplist.Xplist.Roundtrip
import IDeviceStack.WebkitProxy.Webinspector

namespace IDeviceStack.WebkitProxy

open Lib Libplist Libplist.Xplist List

/-! ## The state -/

/-- A call of `on_attach` or `on_detach`; the number is an `int`. -/
inductive DlCall where
  | onAttach (deviceId : Option (List UInt8)) (deviceNum : UInt32)
  | onDetach (deviceId : List UInt8) (deviceNum : UInt32)
  deriving DecidableEq, Repr

/-- How far the listener is: open, closed by an error, or ended by an assertion. -/
inductive DlStatus where
  | success
  | error
  | aborted
  deriving DecidableEq, Repr

/-- `struct dl_private`, but for `in`. -/
structure Dl where
  deviceNumToDeviceId : List (Nat × List UInt8)
  hasLength : Bool
  bodyLength : Nat
  status : DlStatus
  calls : List DlCall

/-- The machine, the conversions of `libplist`, and whether the callbacks succeed. -/
structure DlEnv where
  machine : Machine
  conv : Conv
  callback : DlCall → Bool

def dlNew : Dl := ⟨[], false, 0, .success, []⟩

namespace Dl

def fail (my : Dl) : Dl := { my with status := .error }

def abort (my : Dl) : Dl := { my with status := .aborted }

/-- A callback is called, and what it returns is returned. -/
def call (env : DlEnv) (my : Dl) (c : DlCall) : Dl :=
  { my with calls := my.calls ++ [c], status := if env.callback c then .success else .error }

/-- `HT_KEY(device_num)`. -/
def key (env : DlEnv) (deviceNum : UInt64) : Nat := deviceNum.toNat % 2 ^ env.machine.bits

/-- `ht_remove`, without its result. -/
def remove (my : Dl) (k : Nat) : Dl :=
  { my with deviceNumToDeviceId := my.deviceNumToDeviceId.filter fun e => e.1 ≠ k }

/-- `ht_put`; a `NULL` takes the entry away. -/
def put (my : Dl) (k : Nat) (deviceId : Option (List UInt8)) : Dl :=
  { my.remove k with
    deviceNumToDeviceId := (deviceId.map fun id => (k, id)).toList ++
      (my.remove k).deviceNumToDeviceId }

/-- What is kept for a number. -/
def find (my : Dl) (k : Nat) : Option (List UInt8) :=
  (my.deviceNumToDeviceId.find? fun e => e.1 = k).map Prod.snd

end Dl

/-! ## Packets -/

def dlSscanfUint32 (buf : List UInt8) : Nat := leVal (buf.take 4)

/-- `TYPE_PLIST`. -/
def TYPE_PLIST : Nat := 8

/-- `plist_from_xml`: an error is a crash of it. -/
def dlFromXml (env : DlEnv) (xml : List UInt8) : Except Stop (Option Plist) :=
  match plistFromXml env.conv xml xml.length (xml.length + 1) with
  | .ok (nodes, some root) => .ok (treeAt nodes nodes.length root)
  | .ok (_, none) => .ok none
  | .error s => .error s

/-- `plist_get_uint_val`; `none` is a failed assertion. -/
def plistGetUintVal : Option Plist → Option UInt64
  | some (.scalar (.uint v) length) => if length = 8 ∨ length = 16 then some v else none
  | _ => none

/-- `plist_get_string_val`; `none` is a failed assertion. -/
def plistGetStringVal : Plist → Option (List UInt8)
  | .scalar (.string s) length => if length = strlen s then some (cstr s) else none
  | _ => none

/-- `message`: `none` is a failed assertion, `some none` a `NULL`. -/
def messageType (dict : Plist) : Option (Option (List UInt8)) :=
  match dictGetItem dict (ascii "MessageType") with
  | some (.scalar (.string s) length) => (plistGetStringVal (.scalar (.string s) length)).map some
  | _ => some none

/-- `device_id`: `none` is a failed assertion, `some none` a `NULL`. -/
def serialNumber (props : Plist) : Option (Option (List UInt8)) :=
  match dictGetItem props (ascii "SerialNumber") with
  | some node => (plistGetStringVal node).map some
  | none => some none

/-- What is read of the properties, in the order of the source: number and serial. -/
def readProperties (props : Plist) : Option (UInt64 × Option (List UInt8)) := do
  let deviceNum ← plistGetUintVal (dictGetItem props (ascii "DeviceID"))
  let _ ← plistGetUintVal (dictGetItem props (ascii "ProductID"))
  let deviceId ← serialNumber props
  let _ ← plistGetUintVal (dictGetItem props (ascii "LocationID"))
  return (deviceNum, deviceId)

section Packets

variable (env : DlEnv) (my : Dl)

/-- The branch of `Result`. -/
def dlResult (dict : Plist) : Dl :=
  match dictGetItem dict (ascii "Number") with
  | none => my.fail
  | some node =>
    match plistGetUintVal (some node) with
    | none => my.abort
    | some value => if value = 0 then my else my.fail

/-- The branch of `Attached`. -/
def dlAttached (dict : Plist) : Dl :=
  match dictGetItem dict (ascii "Properties") with
  | none => my.fail
  | some props =>
    match readProperties props with
    | none => my.abort
    | some (deviceNum, deviceId) =>
      (my.put (Dl.key env deviceNum) deviceId).call env (.onAttach deviceId deviceNum.toUInt32)

/-- The branch of `Detached`. -/
def dlDetached (dict : Plist) : Dl :=
  match dictGetItem dict (ascii "DeviceID") with
  | none => my.fail
  | some node =>
    match plistGetUintVal (some node) with
    | none => my.abort
    | some deviceNum =>
      match my.find (Dl.key env deviceNum) with
      | none => (my.remove (Dl.key env deviceNum)).fail
      | some deviceId =>
        (my.remove (Dl.key env deviceNum)).call env (.onDetach deviceId deviceNum.toUInt32)

/-- `dl_recv_packet`, once the dictionary is there. -/
def dlRecvDict (dict : Plist) : Dl :=
  match messageType dict with
  | none => my.abort
  | some none => my.fail
  | some (some message) =>
    if message = ascii "Result" then dlResult my dict
    else if message = ascii "Attached" then dlAttached env my dict
    else if message = ascii "Detached" then dlDetached env my dict
    else my.fail

def dlRecvPacket (packet : List UInt8) : Dl :=
  if dlSscanfUint32 packet ≠ packet.length ∨ packet.length < 16 then my.fail
  else if dlSscanfUint32 (packet.drop 4) ≠ 1 ∨ dlSscanfUint32 (packet.drop 8) ≠ TYPE_PLIST then my
  else
    match dlFromXml env (packet.drop 16) with
    | .error _ => my.abort
    | .ok none => my.fail
    | .ok (some dict) => dlRecvDict env my dict

/-! ## The loop -/

/-- With the length of the next packet read, and with a packet done. -/
def Dl.expecting (length : Nat) : Dl := { my with hasLength := true, bodyLength := length }

def Dl.done : Dl := { my with hasLength := false, bodyLength := 0 }

/-- One turn of the `while` in `dl_recv_loop`. -/
def dlRecvTurn (u : List UInt8) : Turn Dl :=
  if my.status ≠ .success then .wait my
  else if my.hasLength = false ∧ 4 ≤ u.length then .go (my.expecting (dlSscanfUint32 u)) 0
  else if my.hasLength = true ∧ my.bodyLength ≤ u.length then
    let my' := (dlRecvPacket env my (u.take my.bodyLength)).done
    if my'.status = .success then .go my' my.bodyLength else .halt my' my.bodyLength
  else .wait my

/-- A length is read before its packet. -/
def dlRank (my : Dl) (u : List UInt8) : Nat := 2 * u.length + if my.hasLength then 0 else 1

end Packets

def dlRecvLoop (env : DlEnv) (my : Dl) (u : List UInt8) : Dl × List UInt8 :=
  drainAll (dlRecvTurn env) dlRank my u

/-- `dl_on_recv`, as long as the connection is open; the second component is `in`. -/
def dlOnRecv (env : DlEnv) (w : Dl × Cb) (buf : List UInt8) : Dl × Cb :=
  if w.1.status ≠ .success ∨ buf.isEmpty then w
  else
    match cbBeginInput env.machine w.2 buf with
    | (cb, false) => (w.1.fail, cb)
    | (cb, true) =>
      let (my, rest) := dlRecvLoop env w.1 cb.input
      match cbEndInput env.machine { cb with input := rest } with
      | (cb, false) => (my.fail, cb)
      | (cb, true) => (my, cb)

/-! ## Notices -/

/-- What `usbmuxd` tells.  Its numbers have 32 bits. -/
inductive Notice where
  | result
  | attached (deviceNum : UInt32) (serial : List UInt8) (productId locationId : Option UInt64)
  | detached (deviceNum : UInt32)
  | paired (deviceNum : UInt32)
  deriving DecidableEq, Repr

/-- A member that is a text. -/
def HasString (dict : Plist) (key : String) (s : List UInt8) : Prop :=
  dictGetItem dict (ascii key) = some (.scalar (.string s) s.length) ∧ NulFree s

/-- A member that is a number, or is not there. -/
def HasUint (dict : Plist) (key : String) : Option UInt64 → Prop
  | none => dictGetItem dict (ascii key) = none
  | some v => ∃ length ∈ [8, 16], dictGetItem dict (ascii key) = some (.scalar (.uint v) length)

instance decidableIsScalar (v : Scalar) (length : Nat) :
    (node : Option Plist) → Decidable (node = some (.scalar v length))
  | some (.scalar w n) => decidable_of_iff (w = v ∧ n = length) (by simp)
  | some (.array _) => isFalse nofun
  | some (.dict _) => isFalse nofun
  | none => isFalse nofun

instance decidableIsNone : (node : Option Plist) → Decidable (node = none)
  | none => isTrue rfl
  | some _ => isFalse nofun

instance (dict : Plist) (key : String) (s : List UInt8) : Decidable (HasString dict key s) :=
  inferInstanceAs (Decidable (_ ∧ _))

instance (dict : Plist) (key : String) : (value : Option UInt64) → Decidable (HasUint dict key value)
  | none => decidableIsNone _
  | some v =>
    inferInstanceAs (Decidable (∃ length ∈ [8, 16],
      dictGetItem dict (ascii key) = some (Plist.scalar (.uint v) length)))

/-- A dictionary that stands for a notice. -/
def Notice.Shape (dict : Plist) : Notice → Prop
  | .result => HasString dict "MessageType" (ascii "Result") ∧ HasUint dict "Number" (some 0)
  | .attached deviceNum serial productId locationId =>
    HasString dict "MessageType" (ascii "Attached") ∧
      ∃ props ∈ dictGetItem dict (ascii "Properties"),
        HasUint props "DeviceID" (some deviceNum.toUInt64) ∧
        HasUint props "ProductID" productId ∧ HasString props "SerialNumber" serial ∧
        HasUint props "LocationID" locationId
  | .detached deviceNum =>
    HasString dict "MessageType" (ascii "Detached") ∧
      HasUint dict "DeviceID" (some deviceNum.toUInt64)
  | .paired deviceNum =>
    HasString dict "MessageType" (ascii "Paired") ∧
      HasUint dict "DeviceID" (some deviceNum.toUInt64)

instance (dict : Plist) : (notice : Notice) → Decidable (notice.Shape dict)
  | .result => inferInstanceAs (Decidable (_ ∧ _))
  | .attached _ _ _ _ => inferInstanceAs (Decidable (_ ∧ ∃ _ ∈ _, _ ∧ _ ∧ _ ∧ _))
  | .detached _ => inferInstanceAs (Decidable (_ ∧ _))
  | .paired _ => inferInstanceAs (Decidable (_ ∧ _))

/-- A packet with a notice in it. -/
structure Carries (env : DlEnv) (packet : List UInt8) (notice : Notice) : Prop where
  length_eq : dlSscanfUint32 packet = packet.length
  header_le : 16 ≤ packet.length
  version_eq : dlSscanfUint32 (packet.drop 4) = 1
  type_eq : dlSscanfUint32 (packet.drop 8) = TYPE_PLIST
  body : ∃ dict, dlFromXml env (packet.drop 16) = .ok (some dict) ∧ notice.Shape dict

/-- The devices that are attached, by their numbers. -/
abbrev Attached := List (UInt32 × List UInt8)

def Attached.without (devices : Attached) (deviceNum : UInt32) : Attached :=
  devices.filter fun e => e.1 ≠ deviceNum

def Attached.serial (devices : Attached) (deviceNum : UInt32) : Option (List UInt8) :=
  (devices.find? fun e => e.1 = deviceNum).map Prod.snd

/-- The devices after a notice. -/
def Notice.after (devices : Attached) : Notice → Attached
  | .attached deviceNum serial _ _ => (deviceNum, serial) :: devices.without deviceNum
  | .detached deviceNum => devices.without deviceNum
  | _ => devices

/-- What the callbacks should be told. -/
def Notice.told (devices : Attached) : Notice → List DlCall
  | .attached deviceNum serial _ _ => [.onAttach (some serial) deviceNum]
  | .detached deviceNum =>
    ((devices.serial deviceNum).map fun serial => DlCall.onDetach serial deviceNum).toList
  | _ => []

def allTold : Attached → List Notice → List DlCall
  | _, [] => []
  | devices, notice :: notices => notice.told devices ++ allTold (notice.after devices) notices

/-- A notice that the listener understands. -/
def Notice.Understood (devices : Attached) : Notice → Prop
  | .result => True
  | .attached _ _ productId locationId => productId.isSome ∧ locationId.isSome
  | .detached deviceNum => (devices.serial deviceNum).isSome
  | .paired _ => False

/-- All notices of a sequence are understood when they come. -/
def AllUnderstood : Attached → List Notice → Prop
  | _, [] => True
  | devices, notice :: notices =>
    notice.Understood devices ∧ AllUnderstood (notice.after devices) notices

/-! ## One packet -/

section Packet

variable {env : DlEnv} {my : Dl} {devices : Attached}

theorem Dl.fail_ne (my : Dl) : my.fail.status ≠ .success := DlStatus.noConfusion

theorem Dl.abort_ne (my : Dl) : my.abort.status ≠ .success := DlStatus.noConfusion

/-- The table holds the attached devices. -/
def Dl.Keeps (my : Dl) (devices : Attached) : Prop :=
  my.deviceNumToDeviceId = devices.map fun e => (e.1.toNat, e.2)

theorem Dl.key_eq (env : DlEnv) (deviceNum : UInt32) :
    Dl.key env deviceNum.toUInt64 = deviceNum.toNat := by
  have hlt : deviceNum.toNat < 2 ^ 32 := deviceNum.toNat_lt
  have hbits : 2 ^ 32 ≤ 2 ^ env.machine.bits := by
    rcases env.machine.bits_eq with h | h
    · rw [h]
    · rw [h]
      decide
  rw [Dl.key, UInt32.toNat_toUInt64]
  exact Nat.mod_eq_of_lt (Nat.lt_of_lt_of_le hlt hbits)

theorem toNat_ne_iff (m n : UInt32) : m.toNat ≠ n.toNat ↔ m ≠ n :=
  not_congr UInt32.toNat_inj

theorem Dl.Keeps.remove (h : my.Keeps devices) (deviceNum : UInt32) :
    (my.remove deviceNum.toNat).Keeps (devices.without deviceNum) := by
  rw [Dl.Keeps] at h ⊢
  have hsame : ((fun e : Nat × List UInt8 => decide (e.1 ≠ deviceNum.toNat)) ∘
      fun e : UInt32 × List UInt8 => (e.1.toNat, e.2)) = fun e => decide (e.1 ≠ deviceNum) := by
    funext e
    exact decide_eq_decide.mpr (toNat_ne_iff _ _)
  rw [Dl.remove, Attached.without, h, filter_map, hsame]

theorem Dl.Keeps.put (h : my.Keeps devices) (deviceNum : UInt32) (serial : List UInt8) :
    (my.put deviceNum.toNat (some serial)).Keeps
      ((deviceNum, serial) :: devices.without deviceNum) := by
  have hrest := h.remove deviceNum
  rw [Dl.Keeps] at hrest ⊢
  rw [Dl.put, map_cons, ← hrest]
  rfl

theorem Dl.Keeps.find (h : my.Keeps devices) (deviceNum : UInt32) :
    my.find deviceNum.toNat = devices.serial deviceNum := by
  rw [Dl.Keeps] at h
  rw [Dl.find, Attached.serial, h, List.find?_map, Option.map_map]
  have hsame : ((fun e : Nat × List UInt8 => decide (e.1 = deviceNum.toNat)) ∘
      fun e : UInt32 × List UInt8 => (e.1.toNat, e.2)) = fun e => decide (e.1 = deviceNum) := by
    funext e
    exact decide_eq_decide.mpr UInt32.toNat_inj
  rw [hsame]
  rfl

theorem HasString.messageType {dict : Plist} {s : List UInt8} (h : HasString dict "MessageType" s) :
    messageType dict = some (some s) := by
  have hlen : strlen s = s.length := by rw [strlen, cstr_of_nulFree h.2]
  simp only [WebkitProxy.messageType, h.1, plistGetStringVal]
  rw [if_pos hlen.symm, cstr_of_nulFree h.2]
  rfl

theorem HasString.serialNumber {props : Plist} {s : List UInt8}
    (h : HasString props "SerialNumber" s) : serialNumber props = some (some s) := by
  have hlen : strlen s = s.length := by rw [strlen, cstr_of_nulFree h.2]
  simp only [WebkitProxy.serialNumber, h.1, plistGetStringVal]
  rw [if_pos hlen.symm, cstr_of_nulFree h.2]
  rfl

theorem HasUint.getUintVal {dict : Plist} {key : String} {value : Option UInt64}
    (h : HasUint dict key value) : plistGetUintVal (dictGetItem dict (ascii key)) = value := by
  cases value with
  | none =>
    rw [HasUint] at h
    rw [h]
    rfl
  | some v =>
    obtain ⟨length, hlength, hitem⟩ := h
    rw [hitem]
    exact if_pos (by simpa using hlength)

/-- What a packet does to a listener that holds some devices. -/
structure Takes (env : DlEnv) (my my' : Dl) (devices : Attached) (notice : Notice) : Prop where
  understood : notice.Understood devices →
    my'.status = .success ∧ my'.Keeps (notice.after devices) ∧
      my'.calls = my.calls ++ notice.told devices
  refused : ¬ notice.Understood devices → my'.status ≠ .success

variable (hcall : ∀ c, env.callback c = true) (hdev : my.Keeps devices)
  (hopen : my.status = .success)
include hcall hdev hopen

theorem dlRecvDict_shape {dict : Plist} {notice : Notice} (h : notice.Shape dict) :
    Takes env my (dlRecvDict env my dict) devices notice := by
  cases notice with
  | result =>
    obtain ⟨hmessage, length, hlength, hitem⟩ := h
    rw [dlRecvDict, hmessage.messageType]
    dsimp only
    rw [if_pos rfl, dlResult, hitem]
    dsimp only [plistGetUintVal]
    rw [if_pos (by simpa using hlength)]
    exact ⟨fun _ => ⟨hopen, hdev, (append_nil _).symm⟩, fun hnot => absurd trivial hnot⟩
  | attached deviceNum serial productId locationId =>
    obtain ⟨hmessage, props, hprops, hnum, hproduct, hserial, hlocation⟩ := h
    rw [dlRecvDict, hmessage.messageType]
    dsimp only
    rw [if_neg (by decide), if_pos rfl, dlAttached, Option.mem_def.mp hprops]
    dsimp only
    have hread : readProperties props =
        productId.bind fun _ => locationId.bind fun _ => some (deviceNum.toUInt64, some serial) := by
      rw [readProperties, hnum.getUintVal, hproduct.getUintVal, hserial.serialNumber,
        hlocation.getUintVal]
      rfl
    cases productId with
    | none =>
      rw [hread]
      exact ⟨fun hund => absurd hund.1 (by decide), fun _ => my.abort_ne⟩
    | some product =>
      cases locationId with
      | none =>
        rw [hread]
        exact ⟨fun hund => absurd hund.2 (by decide), fun _ => my.abort_ne⟩
      | some location =>
        rw [hread]
        dsimp only [Option.bind_some]
        rw [Dl.key_eq, UInt32.toUInt32_toUInt64, Dl.call, hcall]
        exact ⟨fun _ => ⟨rfl, hdev.put deviceNum serial, rfl⟩,
          fun hnot => absurd ⟨rfl, rfl⟩ hnot⟩
  | detached deviceNum =>
    obtain ⟨hmessage, length, hlength, hitem⟩ := h
    rw [dlRecvDict, hmessage.messageType]
    dsimp only
    rw [if_neg (by decide), if_neg (by decide), if_pos rfl, dlDetached, hitem]
    dsimp only [plistGetUintVal]
    rw [if_pos (by simpa using hlength)]
    dsimp only
    rw [Dl.key_eq, hdev.find]
    cases hserial : devices.serial deviceNum with
    | none =>
      refine ⟨fun hund => ?_, fun _ => (my.remove deviceNum.toNat).fail_ne⟩
      rw [Notice.Understood, hserial] at hund
      cases hund
    | some serial =>
      dsimp only
      rw [UInt32.toUInt32_toUInt64, Dl.call, hcall]
      refine ⟨fun _ => ⟨rfl, hdev.remove deviceNum, ?_⟩, fun hnot => absurd ?_ hnot⟩
      · rw [Notice.told, hserial]
        rfl
      · rw [Notice.Understood, hserial]
        rfl
  | paired deviceNum =>
    rw [dlRecvDict, h.1.messageType]
    dsimp only
    rw [if_neg (by decide), if_neg (by decide), if_neg (by decide)]
    exact ⟨False.elim, fun _ => my.fail_ne⟩

theorem dlRecvPacket_carries {packet : List UInt8} {notice : Notice}
    (h : Carries env packet notice) : Takes env my (dlRecvPacket env my packet) devices notice := by
  obtain ⟨dict, hparse, hshape⟩ := h.body
  have hheader := h.header_le
  rw [dlRecvPacket, if_neg (not_or.mpr ⟨not_not.mpr h.length_eq, by omega⟩),
    if_neg (not_or.mpr ⟨not_not.mpr h.version_eq, not_not.mpr h.type_eq⟩), hparse]
  exact dlRecvDict_shape hcall hdev hopen hshape

end Packet

/-! ## Turns -/

section Turns

variable {env : DlEnv} {my : Dl} {u : List UInt8}

theorem dlSscanfUint32_append (h : 4 ≤ u.length) (v : List UInt8) :
    dlSscanfUint32 (u ++ v) = dlSscanfUint32 u := by
  rw [dlSscanfUint32, dlSscanfUint32, take_append_of_le_length h]

theorem dlRecvTurn_stuck (h : my.status ≠ .success) (u : List UInt8) :
    dlRecvTurn env my u = .wait my := if_pos h

theorem dlRecvTurn_length (hopen : my.status = .success) (hlen : my.hasLength = false)
    (h : 4 ≤ u.length) : dlRecvTurn env my u = .go (my.expecting (dlSscanfUint32 u)) 0 := by
  rw [dlRecvTurn, if_neg (not_not.mpr hopen), if_pos ⟨hlen, h⟩]

theorem dlRecvTurn_packet (hopen : my.status = .success) (hlen : my.hasLength = true)
    (h : my.bodyLength ≤ u.length) :
    dlRecvTurn env my u =
      if (dlRecvPacket env my (u.take my.bodyLength)).done.status = .success then
        .go (dlRecvPacket env my (u.take my.bodyLength)).done my.bodyLength
      else .halt (dlRecvPacket env my (u.take my.bodyLength)).done my.bodyLength := by
  have hnot : ¬ (my.hasLength = false ∧ 4 ≤ u.length) := fun hand => by
    rw [hlen] at hand
    cases hand.1
  rw [dlRecvTurn, if_neg (not_not.mpr hopen), if_neg hnot, if_pos ⟨hlen, h⟩]

/-- The bytes at hand are too few. -/
def Dl.Short (my : Dl) (u : List UInt8) : Prop :=
  if my.hasLength then u.length < my.bodyLength else u.length < 4

theorem dlRecvTurn_short (hopen : my.status = .success) (h : my.Short u) :
    dlRecvTurn env my u = .wait my := by
  rw [Dl.Short] at h
  rw [dlRecvTurn, if_neg (not_not.mpr hopen)]
  cases hlen : my.hasLength with
  | false =>
    rw [hlen, if_neg (by decide)] at h
    rw [if_neg (by omega), if_neg fun hand => absurd hand.1 (by decide)]
  | true =>
    rw [hlen, if_pos rfl] at h
    rw [if_neg fun hand => absurd hand.1 (by decide), if_neg (by omega)]

theorem dlRecvTurn_cases (my : Dl) (u : List UInt8) :
    (my.status ≠ .success) ∨ (my.status = .success ∧ my.Short u) ∨
      (my.status = .success ∧ my.hasLength = false ∧ 4 ≤ u.length) ∨
      (my.status = .success ∧ my.hasLength = true ∧ my.bodyLength ≤ u.length) := by
  by_cases hopen : my.status = .success
  · rw [Dl.Short]
    cases hlen : my.hasLength with
    | false =>
      by_cases h : 4 ≤ u.length
      · exact .inr (.inr (.inl ⟨hopen, rfl, h⟩))
      · exact .inr (.inl ⟨hopen, by rw [if_neg (by decide)]; omega⟩)
    | true =>
      by_cases h : my.bodyLength ≤ u.length
      · exact .inr (.inr (.inr ⟨hopen, rfl, h⟩))
      · exact .inr (.inl ⟨hopen, by rw [if_pos rfl]; omega⟩)
  · exact .inl hopen

theorem dlRecvTurn_append {my' : Dl} {n : Nat} (v : List UInt8)
    (h : dlRecvTurn env my u = .go my' n ∨ dlRecvTurn env my u = .halt my' n) :
    n ≤ u.length ∧ dlRecvTurn env my (u ++ v) = dlRecvTurn env my u := by
  rcases dlRecvTurn_cases my u with hstuck | ⟨hopen, hshort⟩ | ⟨hopen, hlen, hu⟩ | ⟨hopen, hlen, hu⟩
  · rw [dlRecvTurn_stuck hstuck] at h
    rcases h with h | h <;> cases h
  · rw [dlRecvTurn_short hopen hshort] at h
    rcases h with h | h <;> cases h
  · rw [dlRecvTurn_length hopen hlen hu] at h ⊢
    rw [dlRecvTurn_length hopen hlen (by rw [length_append]; omega), dlSscanfUint32_append hu]
    rcases h with h | h <;> cases h
    exact ⟨Nat.zero_le _, rfl⟩
  · have htake : (u ++ v).take my.bodyLength = u.take my.bodyLength :=
      take_append_of_le_length hu
    rw [dlRecvTurn_packet hopen hlen hu] at h ⊢
    rw [dlRecvTurn_packet hopen hlen (by rw [length_append]; omega), htake]
    refine ⟨?_, rfl⟩
    split at h
    · rcases h with h | h <;> cases h
      exact hu
    · rcases h with h | h <;> cases h
      exact hu

theorem dlRecvTurn_wait {my' : Dl} (h : dlRecvTurn env my u = .wait my') : my' = my := by
  rcases dlRecvTurn_cases my u with hstuck | ⟨hopen, hshort⟩ | ⟨hopen, hlen, hu⟩ | ⟨hopen, hlen, hu⟩
  · rw [dlRecvTurn_stuck hstuck] at h
    cases h
    rfl
  · rw [dlRecvTurn_short hopen hshort] at h
    cases h
    rfl
  · rw [dlRecvTurn_length hopen hlen hu] at h
    cases h
  · rw [dlRecvTurn_packet hopen hlen hu] at h
    split at h <;> cases h

theorem dlRecvTurn_stable (env : DlEnv) (limit : Nat) :
    Stable (dlRecvTurn env) (fun _ _ => True) limit where
  append _ _ := trivial
  wait _ h := by
    rw [dlRecvTurn_wait h]
    exact ⟨trivial, fun _ _ _ => rfl⟩
  go _ h := by
    refine ⟨(dlRecvTurn_append [] (.inl h)).1, trivial, fun v _ => ?_⟩
    rw [(dlRecvTurn_append v (.inl h)).2, h]
  halt _ h := by
    refine ⟨(dlRecvTurn_append [] (.inr h)).1, trivial, fun v _ => ?_⟩
    rw [(dlRecvTurn_append v (.inr h)).2, h]

theorem dlRecvTurn_stops (env : DlEnv) : StopsForGood (dlRecvTurn env) := by
  intro my u my' n h w
  rcases dlRecvTurn_cases my u with hstuck | ⟨hopen, hshort⟩ | ⟨hopen, hlen, hu⟩ | ⟨hopen, hlen, hu⟩
  · rw [dlRecvTurn_stuck hstuck] at h
    cases h
  · rw [dlRecvTurn_short hopen hshort] at h
    cases h
  · rw [dlRecvTurn_length hopen hlen hu] at h
    cases h
  · rw [dlRecvTurn_packet hopen hlen hu] at h
    split at h
    · cases h
    · next hfailed =>
        cases h
        exact dlRecvTurn_stuck hfailed w

theorem dlRecvPacket_long {packet : List UInt8}
    (h : (dlRecvPacket env my packet).status = .success) : 16 ≤ packet.length := by
  by_contra hshort
  rw [dlRecvPacket, if_pos (.inr (by omega))] at h
  exact my.fail_ne h

theorem dlRecvTurn_decreases (env : DlEnv) : Decreases (dlRecvTurn env) dlRank := by
  intro my u my' n h
  rcases dlRecvTurn_cases my u with hstuck | ⟨hopen, hshort⟩ | ⟨hopen, hlen, hu⟩ | ⟨hopen, hlen, hu⟩
  · rw [dlRecvTurn_stuck hstuck] at h
    cases h
  · rw [dlRecvTurn_short hopen hshort] at h
    cases h
  · rw [dlRecvTurn_length hopen hlen hu] at h
    cases h
    rw [dlRank, dlRank, hlen, drop_zero]
    exact Nat.lt_succ_self _
  · rw [dlRecvTurn_packet hopen hlen hu] at h
    split at h
    · next hok =>
        cases h
        have hlong : 16 ≤ (u.take my.bodyLength).length := dlRecvPacket_long hok
        rw [length_take_of_le hu] at hlong
        rw [dlRank, dlRank, hlen, length_drop]
        show 2 * (u.length - my.bodyLength) + 1 < 2 * u.length + 0
        omega
    · cases h

end Turns

/-! ## Packets in a row -/

section Rows

variable {env : DlEnv} (hcall : ∀ c, env.callback c = true)

/-- Between packets. -/
structure Dl.Ready (my : Dl) (devices : Attached) : Prop where
  keeps : my.Keeps devices
  idle : my.hasLength = false
  isOpen : my.status = .success

/-- Less than a packet. -/
def Partial (u : List UInt8) : Prop := u.length < 4 ∨ u.length < dlSscanfUint32 u

theorem drains_partial (env : DlEnv) {my : Dl} {devices : Attached} (h : my.Ready devices)
    {u : List UInt8} (hpart : Partial u) :
    ∃ my', Drains (dlRecvTurn env) my u my' u false ∧ my'.status = .success ∧
      my'.calls = my.calls := by
  by_cases hshort : u.length < 4
  · have hwait : my.Short u := by rw [Dl.Short, h.idle]; exact hshort
    exact ⟨my, .wait (dlRecvTurn_short h.isOpen hwait), h.isOpen, rfl⟩
  · have hu : 4 ≤ u.length := by omega
    have hwait : (my.expecting (dlSscanfUint32 u)).Short u := hpart.resolve_left hshort
    have hopen' : (my.expecting (dlSscanfUint32 u)).status = .success := h.isOpen
    refine ⟨my.expecting (dlSscanfUint32 u), ?_, h.isOpen, rfl⟩
    have hne : u.drop 0 ≠ [] := ne_nil_of_length_pos (by rw [drop_zero]; omega)
    refine .more (dlRecvTurn_length h.isOpen h.idle hu) hne ?_
    rw [drop_zero]
    exact .wait (dlRecvTurn_short hopen' hwait)

theorem notices_of_flatten_nil {packets : List (List UInt8)} {notices : List Notice}
    (h : List.Forall₂ (Carries env) packets notices) (hnil : packets.flatten = []) :
    notices = [] := by
  cases h with
  | nil => rfl
  | @cons packet notice packets notices hcarries hrest =>
    rw [flatten_cons] at hnil
    have hheader := hcarries.header_le
    rw [(append_eq_nil_iff.mp hnil).1, length_nil] at hheader
    omega

include hcall in
/-- **Packets in a row**, and less than a packet behind them. -/
theorem drains_packets {packets : List (List UInt8)} {notices : List Notice}
    (h : List.Forall₂ (Carries env) packets notices) {devices : Attached} {my : Dl}
    (hready : my.Ready devices) {u : List UInt8} (hpart : Partial u)
    (hne : packets.flatten ++ u ≠ []) :
    ∃ my' u' b, Drains (dlRecvTurn env) my (packets.flatten ++ u) my' u' b ∧
      (AllUnderstood devices notices → my'.status = .success ∧ u' = u ∧
        my'.calls = my.calls ++ allTold devices notices) ∧
      (¬ AllUnderstood devices notices → my'.status ≠ .success) := by
  induction h generalizing devices my with
  | nil =>
    obtain ⟨my', hrun, hopen, hcalls⟩ := drains_partial env hready hpart
    exact ⟨my', u, false, hrun, fun _ => ⟨hopen, rfl, by rw [hcalls]; exact (append_nil _).symm⟩,
      fun hnot => absurd trivial hnot⟩
  | @cons packet notice packets notices hcarries hrest ih =>
    have hheader := hcarries.header_le
    obtain ⟨w, hw⟩ : ∃ w, w = packets.flatten ++ u := ⟨_, rfl⟩
    rw [flatten_cons, append_assoc, ← hw]
    have hlong : 4 ≤ (packet ++ w).length := by
      rw [length_append]
      omega
    have hnum : dlSscanfUint32 (packet ++ w) = packet.length := by
      rw [dlSscanfUint32_append (by omega), hcarries.length_eq]
    have hfirst : dlRecvTurn env my (packet ++ w) = .go (my.expecting packet.length) 0 := by
      rw [dlRecvTurn_length hready.isOpen hready.idle hlong, hnum]
    have hfirst_ne : (packet ++ w).drop 0 ≠ [] :=
      ne_nil_of_length_pos (by rw [drop_zero]; omega)
    obtain ⟨my1, hmy1⟩ : ∃ my1, my1 = (dlRecvPacket env (my.expecting packet.length) packet).done :=
      ⟨_, rfl⟩
    have hkeeps' : (my.expecting packet.length).Keeps devices := hready.keeps
    have hopen' : (my.expecting packet.length).status = .success := hready.isOpen
    have hlen' : (my.expecting packet.length).hasLength = true := rfl
    have htakes : Takes env (my.expecting packet.length)
        (dlRecvPacket env (my.expecting packet.length) packet) devices notice :=
      dlRecvPacket_carries hcall hkeeps' hopen' hcarries
    have hbody : (packet ++ w).take packet.length = packet := take_left' rfl
    have hsecond : dlRecvTurn env (my.expecting packet.length) (packet ++ w) =
        if my1.status = .success then .go my1 packet.length else .halt my1 packet.length := by
      have hthere : (my.expecting packet.length).bodyLength ≤ (packet ++ w).length := by
        rw [length_append]
        exact Nat.le_add_right _ _
      have hlength : (my.expecting packet.length).bodyLength = packet.length := rfl
      rw [dlRecvTurn_packet hopen' hlen' hthere, hlength, hbody, ← hmy1]
    have hdrop : (packet ++ w).drop packet.length = w := drop_left' rfl
    by_cases hund : notice.Understood devices
    · obtain ⟨hopen, hkeeps, hcalls⟩ := htakes.understood hund
      have hopen1 : my1.status = .success := hmy1 ▸ hopen
      have hcalls1 : my1.calls = my.calls ++ notice.told devices := hmy1 ▸ hcalls
      have hready1 : my1.Ready (notice.after devices) := ⟨hmy1 ▸ hkeeps, hmy1 ▸ rfl, hopen1⟩
      rw [if_pos hopen1] at hsecond
      by_cases hnil : w = []
      · obtain ⟨hflat, hu⟩ := append_eq_nil_iff.mp (hw ▸ hnil)
        obtain rfl := notices_of_flatten_nil hrest hflat
        refine ⟨my1, [], false, .more hfirst hfirst_ne ?_, fun _ => ⟨hopen1, hu.symm, ?_⟩,
          fun hnot => absurd ⟨hund, trivial⟩ hnot⟩
        · rw [drop_zero]
          exact .last hsecond (hdrop.trans hnil)
        · rw [hcalls1, allTold, allTold, append_nil]
      · obtain ⟨my', u', b, hrun, hgood, hbad⟩ := ih hready1 (hw ▸ hnil)
        rw [← hw, ← hdrop] at hrun
        refine ⟨my', u', b, .more hfirst hfirst_ne ?_, ?_, ?_⟩
        · rw [drop_zero]
          exact .more hsecond (by rw [hdrop]; exact hnil) hrun
        · rintro ⟨-, hall⟩
          obtain ⟨hok, hu', hcalls'⟩ := hgood hall
          exact ⟨hok, hu', by rw [hcalls', hcalls1, append_assoc]; rfl⟩
        · exact fun hnot => hbad fun hall => hnot ⟨hund, hall⟩
    · have hfailed : ¬ my1.status = .success := hmy1 ▸ htakes.refused hund
      rw [if_neg hfailed] at hsecond
      refine ⟨my1, w, true, .more hfirst hfirst_ne ?_, fun hall => absurd hall.1 hund,
        fun _ => hfailed⟩
      have hhalt := Drains.halt hsecond
      rw [hdrop] at hhalt
      rw [drop_zero]
      exact hhalt

end Rows

/-! ## Segments -/

section Segments

variable {env : DlEnv}

theorem exists_cut {packets : List (List UInt8)} {notices : List Notice}
    (h : List.Forall₂ (Carries env) packets notices) {s : List UInt8} (hs : s <+: packets.flatten) :
    ∃ k u, s = (packets.take k).flatten ++ u ∧
      (u = [] ∨ ∃ packet ∈ packets, dlSscanfUint32 packet = packet.length ∧ u <+: packet ∧
        u.length < packet.length) := by
  induction h generalizing s with
  | nil => exact ⟨0, [], eq_nil_of_prefix_nil hs, .inl rfl⟩
  | @cons packet notice packets notices hcarries hrest ih =>
    rw [flatten_cons] at hs
    rcases Nat.lt_or_ge s.length packet.length with hlt | hge
    · have hpre : s <+: packet :=
        prefix_of_prefix_length_le hs (prefix_append _ _) (Nat.le_of_lt hlt)
      exact ⟨0, s, rfl, .inr ⟨packet, mem_cons_self, hcarries.length_eq, hpre, hlt⟩⟩
    · have hpre : packet <+: s := prefix_of_prefix_length_le (prefix_append _ _) hs hge
      obtain ⟨s', rfl⟩ := hpre
      obtain ⟨k, u, rfl, hu⟩ := ih ((prefix_append_right_inj packet).mp hs)
      refine ⟨k + 1, u, by rw [take_succ_cons, flatten_cons, append_assoc], ?_⟩
      rcases hu with hnil | ⟨p, hp, hrest⟩
      · exact .inl hnil
      · exact .inr ⟨p, mem_cons_of_mem packet hp, hrest⟩

theorem partial_of_start {packet u : List UInt8} (hnum : dlSscanfUint32 packet = packet.length)
    (hpre : u <+: packet) (hlt : u.length < packet.length) : Partial u := by
  by_cases hshort : u.length < 4
  · exact .inl hshort
  · obtain ⟨v, rfl⟩ := hpre
    rw [dlSscanfUint32_append (by omega)] at hnum
    exact .inr (by omega)

theorem dlOnRecv_open (hgrants : ∀ n, env.machine.grants n = true) {w : Dl × Cb}
    (hopen : w.1.status = .success) (hwf : w.2.Wf) (buf : List UInt8)
    (hlen : w.2.content.length + buf.length < 2 ^ env.machine.bits) :
    (dlOnRecv env w buf).2.Wf ∧
      ((dlOnRecv env w buf).1, (dlOnRecv env w buf).2.content) =
        receive (dlRecvTurn env) dlRank (w.1, w.2.content) buf := by
  rw [dlOnRecv, receive]
  by_cases hnil : buf.isEmpty = true
  · rw [if_pos (.inr hnil), if_pos hnil]
    exact ⟨hwf, rfl⟩
  · rw [if_neg (not_or.mpr ⟨not_not.mpr hopen, hnil⟩), if_neg hnil]
    obtain ⟨cb1, cb2, hbegin, hinput, hend, hwf2, hcontent⟩ :=
      cb_receive (dlRecvTurn env) dlRank w.1 hgrants hwf hlen
    have hloop : dlRecvLoop env w.1 cb1.input = drainAll (dlRecvTurn env) dlRank w.1 cb1.input := rfl
    rw [hbegin]
    dsimp only
    rw [hloop, hend]
    refine ⟨hwf2, Prod.ext ?_ hcontent⟩
    rw [hinput]

theorem receive_stuck {my : Dl} (h : my.status ≠ .success) (u c : List UInt8) :
    (receive (dlRecvTurn env) dlRank (my, u) c).1 = my := by
  rw [receive]
  split
  · rfl
  · rw [drainAll, drain, dlRecvTurn_stuck h]

theorem dlNew_ready : dlNew.Ready [] := ⟨rfl, rfl, rfl⟩

section Streams

variable (hgrants : ∀ n, env.machine.grants n = true) (hcall : ∀ c, env.callback c = true)
  {packets : List (List UInt8)} {notices : List Notice}
  (hcarries : List.Forall₂ (Carries env) packets notices)
  (hpackets : ∀ packet ∈ packets, packet.length < 2 ^ 31)

include hcall hcarries hpackets in
theorem receive_left {s : List UInt8} (hs : s <+: packets.flatten)
    (hopen : (receive (dlRecvTurn env) dlRank (dlNew, []) s).1.status = .success) :
    (receive (dlRecvTurn env) dlRank (dlNew, []) s).2.length < 2 ^ 31 := by
  by_cases hnil : s = []
  · rw [hnil]
    exact Nat.two_pow_pos 31
  obtain ⟨k, u, rfl, hu⟩ := exists_cut hcarries hs
  have hpart : Partial u ∧ u.length < 2 ^ 31 := by
    rcases hu with rfl | ⟨packet, hmem, hnum, hpre, hlt⟩
    · exact ⟨.inl (by decide), Nat.two_pow_pos 31⟩
    · exact ⟨partial_of_start hnum hpre hlt, Nat.lt_trans hlt (hpackets packet hmem)⟩
  obtain ⟨my', u', b, hrun, hgood, hbad⟩ := drains_packets hcall
    (List.forall₂_take k hcarries) dlNew_ready hpart.1 hnil
  have heq : receive (dlRecvTurn env) dlRank (dlNew, []) ((packets.take k).flatten ++ u) = (my', u') :=
    receive_eq_of_drains (dlRecvTurn_decreases env) hnil hrun
  rw [heq] at hopen ⊢
  by_cases hall : AllUnderstood [] (notices.take k)
  · rw [(hgood hall).2.1]
    exact hpart.2
  · exact absurd hopen (hbad hall)

include hgrants hcall hcarries hpackets in
/-- **Chunks leave no trace** while the connection is open. -/
theorem dlOnRecv_foldl {chunks : List (List UInt8)} (hpre : chunks.flatten <+: packets.flatten)
    (hsizes : ∀ c ∈ chunks, c.length < 2 ^ 31) :
    (chunks.foldl (dlOnRecv env) (dlNew, cbNew)).1 =
        (receive (dlRecvTurn env) dlRank (dlNew, []) chunks.flatten).1 ∧
      ((chunks.foldl (dlOnRecv env) (dlNew, cbNew)).1.status = .success →
        (chunks.foldl (dlOnRecv env) (dlNew, cbNew)).2.Wf ∧
          (chunks.foldl (dlOnRecv env) (dlNew, cbNew)).2.content =
            (receive (dlRecvTurn env) dlRank (dlNew, []) chunks.flatten).2) := by
  induction chunks using reverseRecOn with
  | nil => exact ⟨rfl, fun _ => ⟨cbNew_wf, rfl⟩⟩
  | append_singleton chunks c ih =>
    have hflat : (chunks ++ [c]).flatten = chunks.flatten ++ c := by simp
    rw [hflat] at hpre
    have hbefore := (prefix_append chunks.flatten c).trans hpre
    obtain ⟨hstate, hleft⟩ := ih hbefore fun d hd => hsizes d (mem_append_left _ hd)
    have happ := receive_append (dlRecvTurn_stable env _) (dlRecvTurn_decreases env)
      (w := (dlNew, [])) trivial chunks.flatten c (.inl (dlRecvTurn_stops env))
      (Nat.lt_succ_self _)
    rw [hflat, ← happ, foldl_append, foldl_cons, foldl_nil]
    obtain ⟨r, hr⟩ : ∃ r, r = receive (dlRecvTurn env) dlRank (dlNew, []) chunks.flatten := ⟨_, rfl⟩
    obtain ⟨w, hw⟩ : ∃ w, w = chunks.foldl (dlOnRecv env) (dlNew, cbNew) := ⟨_, rfl⟩
    rw [← hr, ← hw] at hstate hleft ⊢
    by_cases hopen : w.1.status = .success
    · obtain ⟨hwf, hcontent⟩ := hleft hopen
      have hshort : r.2.length < 2 ^ 31 := by
        rw [hr]
        exact receive_left hcall hcarries hpackets hbefore (by rw [← hr, ← hstate]; exact hopen)
      have hsize := hsizes c (mem_append_right _ (mem_singleton_self c))
      have hbits : 2 ^ 32 ≤ 2 ^ env.machine.bits := by
        rcases env.machine.bits_eq with h | h
        · rw [h]
        · rw [h]
          decide
      obtain ⟨hwf', hview⟩ := dlOnRecv_open hgrants hopen hwf c (by rw [hcontent]; omega)
      have hr' : (w.1, w.2.content) = r := by rw [hstate, hcontent]
      rw [hr'] at hview
      exact ⟨congrArg Prod.fst hview, fun _ => ⟨hwf', congrArg Prod.snd hview⟩⟩
    · have hsame : dlOnRecv env w c = w := if_pos (.inl hopen)
      rw [hsame]
      refine ⟨?_, fun h => absurd h hopen⟩
      have hstuck : (receive (dlRecvTurn env) dlRank (r.1, r.2) c).1 = r.1 :=
        receive_stuck (hstate ▸ hopen) r.2 c
      rw [hstate]
      exact hstuck.symm

include hgrants hcall hcarries hpackets in
/-- **The listener is faithful** exactly to what it understands.  Packets with notices in them
arrive in any segments, and the callbacks succeed.  The listener stays open, no assertion fails and
the callbacks are told what they should be told if and only if all notices are understood. -/
theorem dlOnRecv_faithful_iff {chunks : List (List UInt8)}
    (hchunks : chunks.flatten = packets.flatten) (hsizes : ∀ c ∈ chunks, c.length < 2 ^ 31) :
    ((chunks.foldl (dlOnRecv env) (dlNew, cbNew)).1.status = .success ∧
      (chunks.foldl (dlOnRecv env) (dlNew, cbNew)).1.calls = allTold [] notices) ↔
      AllUnderstood [] notices := by
  obtain ⟨hstate, -⟩ := dlOnRecv_foldl hgrants hcall hcarries hpackets
    (hchunks ▸ prefix_refl _) hsizes
  rw [hstate, hchunks]
  by_cases hnil : packets.flatten = []
  · obtain rfl := notices_of_flatten_nil hcarries hnil
    rw [hnil]
    exact ⟨fun _ => trivial, fun _ => ⟨rfl, rfl⟩⟩
  · have hne : packets.flatten ++ [] ≠ [] := by rw [append_nil]; exact hnil
    obtain ⟨my', u', b, hrun, hgood, hbad⟩ := drains_packets hcall hcarries dlNew_ready
      (.inl (by decide)) hne
    rw [append_nil] at hrun
    have heq : receive (dlRecvTurn env) dlRank (dlNew, []) packets.flatten = (my', u') :=
      receive_eq_of_drains (dlRecvTurn_decreases env) hnil hrun
    rw [heq]
    constructor
    · rintro ⟨hopen, -⟩
      by_contra hall
      exact hbad hall hopen
    · intro hall
      obtain ⟨hopen, -, hcalls⟩ := hgood hall
      exact ⟨hopen, hcalls⟩

end Streams

end Segments

/-! ## Three streams -/

/-- A packet with a plist in it. -/
def dlPacket (xml : List UInt8) : List UInt8 :=
  leBytes 4 (16 + xml.length) ++ (leBytes 4 1 ++ (leBytes 4 TYPE_PLIST ++ (leBytes 4 1 ++ xml)))

/-- An element of XML. -/
def element (tag : String) (content : List UInt8) : List UInt8 :=
  ascii "<" ++ ascii tag ++ ascii ">" ++ content ++ ascii "</" ++ ascii tag ++ ascii ">"

/-- A member of a dictionary, in XML. -/
def member (key tag : String) (content : List UInt8) : List UInt8 :=
  element "key" (ascii key) ++ element tag content

/-- A small environment. -/
def quietDlEnv : DlEnv where
  machine := .generous
  conv := ⟨fun _ => 0, fun _ => 0, fun _ => 0⟩
  callback _ := true

theorem carries_of_run {env : DlEnv} {packet : List UInt8} {notice : Notice}
    (hheader : dlSscanfUint32 packet = packet.length ∧ 16 ≤ packet.length ∧
      dlSscanfUint32 (packet.drop 4) = 1 ∧ dlSscanfUint32 (packet.drop 8) = TYPE_PLIST)
    (hbody : ((dlFromXml env (packet.drop 16)).toOption.any fun dict =>
      dict.any fun dict => decide (notice.Shape dict)) = true) : Carries env packet notice := by
  obtain ⟨dict, hparse, hshape⟩ := exists_ok hbody
  cases dict with
  | none => cases hshape
  | some dict =>
    exact ⟨hheader.1, hheader.2.1, hheader.2.2.1, hheader.2.2.2, dict, hparse,
      of_decide_eq_true hshape⟩

def attachedXml : List UInt8 :=
  element "dict" (member "MessageType" "string" (ascii "Attached") ++
    member "Properties" "dict" (member "DeviceID" "integer" (ascii "1") ++
      member "ProductID" "integer" (ascii "2") ++ member "SerialNumber" "string" (ascii "s") ++
        member "LocationID" "integer" (ascii "3")))

def detachedXml : List UInt8 :=
  element "dict" (member "MessageType" "string" (ascii "Detached") ++
    member "DeviceID" "integer" (ascii "1"))

theorem attachedXml_carries :
    Carries quietDlEnv (dlPacket attachedXml) (.attached 1 (ascii "s") (some 2) (some 3)) :=
  carries_of_run (by decide +kernel) (by decide +kernel)

theorem detachedXml_carries : Carries quietDlEnv (dlPacket detachedXml) (.detached 1) :=
  carries_of_run (by decide +kernel) (by decide +kernel)

/-- A device comes and goes, in two segments. -/
theorem dlOnRecv_faithful_small : let stream := dlPacket attachedXml ++ dlPacket detachedXml
    let my := ([stream.take 7, stream.drop 7].foldl (dlOnRecv quietDlEnv) (dlNew, cbNew)).1
    my.status = .success ∧ my.calls = [.onAttach (some (ascii "s")) 1, .onDetach (ascii "s") 1] := by
  intro stream my
  have hcarries : List.Forall₂ (Carries quietDlEnv) [dlPacket attachedXml, dlPacket detachedXml]
      [.attached 1 (ascii "s") (some 2) (some 3), .detached 1] :=
    .cons attachedXml_carries (.cons detachedXml_carries .nil)
  have hchunks : [stream.take 7, stream.drop 7].flatten =
      [dlPacket attachedXml, dlPacket detachedXml].flatten := by
    simp only [stream, flatten_cons, flatten_nil, append_nil, take_append_drop]
  have hsizes : ∀ c ∈ [stream.take 7, stream.drop 7], c.length < 2 ^ 31 := by decide +kernel
  exact (dlOnRecv_faithful_iff (fun _ => rfl) (fun _ => rfl) hcarries (by decide +kernel) hchunks
    hsizes).mpr ⟨⟨rfl, rfl⟩, rfl, trivial⟩

def withoutLocationXml : List UInt8 :=
  element "dict" (member "MessageType" "string" (ascii "Attached") ++
    member "Properties" "dict" (member "DeviceID" "integer" (ascii "1") ++
      member "ProductID" "integer" (ascii "2") ++ member "SerialNumber" "string" (ascii "s")))

def pairedXml : List UInt8 :=
  element "dict" (member "MessageType" "string" (ascii "Paired") ++
    member "DeviceID" "integer" (ascii "1"))

/-- What becomes of the listener when a packet arrives. -/
def statusAfter (xml : List UInt8) : DlStatus :=
  (dlOnRecv quietDlEnv (dlNew, cbNew) (dlPacket xml)).1.status

/-- A device that is not known goes, or is paired: the listener is closed.  One is attached without
its location: an assertion fails. -/
theorem dlOnRecv_unfaithful :
    (Carries quietDlEnv (dlPacket detachedXml) (.detached 1) ∧ statusAfter detachedXml = .error) ∧
    (Carries quietDlEnv (dlPacket pairedXml) (.paired 1) ∧ statusAfter pairedXml = .error) ∧
    Carries quietDlEnv (dlPacket withoutLocationXml) (.attached 1 (ascii "s") (some 2) none) ∧
      statusAfter withoutLocationXml = .aborted :=
  ⟨⟨detachedXml_carries, by decide +kernel⟩,
    ⟨carries_of_run (by decide +kernel) (by decide +kernel), by decide +kernel⟩,
    carries_of_run (by decide +kernel) (by decide +kernel), by decide +kernel⟩

end IDeviceStack.WebkitProxy
