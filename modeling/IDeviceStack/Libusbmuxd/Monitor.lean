/-
# `Libusbmuxd.Monitor` — the device monitor of the client library

`get_next_event` of `libusbmuxd.c` keeps a record for every device it was told of, in
a collection with holes, and tells a callback.  The loops over that collection have
been written out by hand in this port, and `devices_find` looks into every slot
it passes.

* The collection is that of `libusbmuxd/common/collection.c`: one slot at first, and
  twice as many when there is no hole left.
* A slot that is looked into and is empty, or a record that was freed, is a
  `MonitorFault`.
* `malloc` gives memory.  A message without the payload it should have is
  `unexpected`, like one of another type.

**Proved here.**  `getNextEvents_faithful_iff`.
-/
import Mathlib.Data.List.Induction
import Mathlib.Data.Multiset.AddSub
import Mathlib.Data.Multiset.Count
import IDeviceStack.Usbmuxd.Collection

namespace IDeviceStack.Libusbmuxd

open Usbmuxd Function List

/-! ## The collection -/

def collectionInit : Collection := [none]

/-- The first hole is filled, if there is one. -/
def fillHole (p : Ptr) : Collection → Option Collection
  | [] => none
  | none :: col => some (some p :: col)
  | some q :: col => (fillHole p col).map (some q :: ·)

def collectionAdd (p : Ptr) (col : Collection) : Collection :=
  (fillHole p col).getD (col ++ some p :: List.replicate (col.length - 1) none)

/-- `collection_remove`; the element may be the null pointer. -/
def collectionRemove (p : Option Ptr) : Collection → Collection
  | [] => []
  | slot :: col => if slot = p then none :: col else slot :: collectionRemove p col

/-! ## Records, events and messages -/

/-- `usbmuxd_device_info_t`; `udid` has 41 bytes. -/
structure DeviceInfo where
  handle : UInt32
  productId : UInt16
  udid : List UInt8
  deriving DecidableEq, Repr

/-- The fields of `struct usbmuxd_device_record` that are read. -/
structure DeviceRecord where
  deviceId : UInt32
  productId : UInt16
  serialNumber : {s : List UInt8 // s.length = 256}

inductive UeType where
  | deviceAdd
  | deviceRemove
  | devicePaired
  deriving DecidableEq, Repr

/-- What the callback is told. -/
structure UeEvent where
  event : UeType
  device : DeviceInfo
  deriving DecidableEq, Repr

/-- What `receive_packet` brings. -/
inductive Message where
  | attached (dev : DeviceRecord)
  | detached (handle : UInt32)
  | paired (handle : UInt32)
  | unexpected
  /-- The connection to the daemon is lost. -/
  | lost

def hexDigit (d : Nat) : UInt8 := UInt8.ofNat (if d < 10 then 48 + d else 87 + d)

/-- `sprintf("%08x")`. -/
def hex8 (x : UInt32) : List UInt8 :=
  (List.range 8).reverse.map fun i => hexDigit (x.toNat >>> (4 * i) % 16)

/-- The UDID of a device; one that has nothing but `f`s for it gets one with its handle. -/
def udidOf (serial : List UInt8) (handle : UInt32) : List UInt8 :=
  let udid := serial.take 41
  if (udid.take 40).all (fun ch => ch == 0x66 || ch == 0x46) ∧ udid.getD 40 0 = 0 then
    udid.take 32 ++ hex8 handle ++ [0]
  else udid

def DeviceRecord.info (dev : DeviceRecord) : DeviceInfo :=
  ⟨dev.deviceId, dev.productId, udidOf dev.serialNumber.val dev.deviceId⟩

/-! ## The monitor -/

inductive MonitorFault where
  /-- An empty slot was looked into. -/
  | nullSlot
  | freed
  deriving DecidableEq, Repr

structure Monitor where
  heap : Ptr → Option DeviceInfo
  fresh : Ptr
  devices : Collection
  /-- What the callback has been told. -/
  seen : List UeEvent

/-- `device_monitor` behind `collection_init`. -/
def Monitor.start : Monitor := ⟨fun _ => none, 0, collectionInit, []⟩

def Monitor.device (m : Monitor) (p : Ptr) : Except MonitorFault DeviceInfo :=
  match m.heap p with
  | some dev => .ok dev
  | none => .error .freed

/-- The loop of `devices_find`. -/
def devicesFind (m : Monitor) (handle : UInt32) : Collection → Except MonitorFault (Option Ptr)
  | [] => .ok none
  | none :: _ => .error .nullSlot
  | some p :: slots => do
      let dev ← m.device p
      if dev.handle = handle then .ok (some p) else devicesFind m handle slots

/-- `generate_event`; the null pointer is not told of. -/
def generateEvent (m : Monitor) (event : UeType) : Option Ptr → Except MonitorFault Monitor
  | none => .ok m
  | some p => do
      let dev ← m.device p
      .ok { m with seen := m.seen ++ [⟨event, dev⟩] }

/-- `collection_remove(&devices, dev); free(dev);`. -/
def Monitor.drop (m : Monitor) (dev : Option Ptr) : Monitor :=
  { m with
    devices := collectionRemove dev m.devices
    heap := match dev with
      | some p => update m.heap p none
      | none => m.heap }

/-- The device in one slot is given up. -/
def dropSlot (m : Monitor) (i : Nat) : Except MonitorFault Monitor := do
  let dev := m.devices.getD i none
  let m ← generateEvent m .deviceRemove dev
  .ok (m.drop dev)

/-- The loop over all slots when the connection is lost. -/
def dropAll (m : Monitor) : Except MonitorFault Monitor :=
  (List.range m.devices.length).foldlM dropSlot m

def deviceAdd (m : Monitor) (dev : DeviceRecord) : Except MonitorFault Monitor :=
  generateEvent
    { m with
      heap := update m.heap m.fresh (some dev.info)
      fresh := m.fresh + 1
      devices := collectionAdd m.fresh m.devices } .deviceAdd (some m.fresh)

def deviceRemove (m : Monitor) (handle : UInt32) : Except MonitorFault Monitor := do
  match ← devicesFind m handle m.devices with
  | none => .ok m
  | some p =>
    let m ← generateEvent m .deviceRemove (some p)
    .ok (m.drop (some p))

def devicePaired (m : Monitor) (handle : UInt32) : Except MonitorFault Monitor := do
  match ← devicesFind m handle m.devices with
  | none => .ok m
  | some p => generateEvent m .devicePaired (some p)

def getNextEvent (m : Monitor) : Message → Except MonitorFault Monitor
  | .attached dev => deviceAdd m dev
  | .detached handle => deviceRemove m handle
  | .paired handle => devicePaired m handle
  | .unexpected => .ok m
  | .lost => dropAll m

/-- One message after the other. -/
def getNextEvents (msgs : List Message) : Except MonitorFault Monitor :=
  msgs.foldlM getNextEvent .start

/-! ## What the monitor is for -/

/-- The handles that are attached after a sequence of messages, each as often as it is. -/
def attachedAfter (msgs : List Message) : Multiset UInt32 :=
  msgs.foldl (fun here msg => match msg with
    | .attached dev => dev.deviceId ::ₘ here
    | .detached handle => here.erase handle
    | .lost => 0
    | _ => here) 0

/-- The handles of the records there are. -/
def Monitor.handles (m : Monitor) : Multiset UInt32 :=
  (m.devices.elems.filterMap fun p => (m.heap p).map DeviceInfo.handle : List UInt32)

/-- How often the callback was told so of a handle. -/
def timesTold (event : UeType) (handle : UInt32) (seen : List UeEvent) : Nat :=
  seen.countP fun e => e.event = event ∧ e.device.handle = handle

def timesAttached (handle : UInt32) (msgs : List Message) : Nat :=
  msgs.countP fun msg => match msg with
    | .attached dev => dev.deviceId = handle
    | _ => false

/-- What is expected of the monitor after a sequence of messages. -/
structure Faithful (msgs : List Message) (m : Monitor) : Prop where
  /-- The handles stored are those attached and not yet detached. -/
  handles : m.handles = attachedAfter msgs
  /-- There is nothing else in the collection. -/
  slots : m.devices.elems.length = m.handles.card
  /-- The callback is told of every attachment. -/
  added : ∀ handle, timesTold .deviceAdd handle m.seen = timesAttached handle msgs
  /-- It is told of a removal only while the handle is attached. -/
  justified : ∀ pre, pre <+: m.seen → ∀ handle,
    timesTold .deviceRemove handle pre ≤ timesTold .deviceAdd handle pre
  /-- It is told of the end of every attachment that is over, once. -/
  once : ∀ handle, timesTold .deviceRemove handle m.seen + m.handles.count handle =
    timesTold .deviceAdd handle m.seen

/-- In front of every empty slot stands a record with this handle. -/
def Monitor.Clear (m : Monitor) (handle : UInt32) : Prop :=
  ∀ pre post, m.devices = pre ++ none :: post →
    ∃ p dev, some p ∈ pre ∧ m.heap p = some dev ∧ dev.handle = handle

/-- The handle that a message makes the monitor look for. -/
def Message.names : Message → Option UInt32
  | .detached handle => some handle
  | .paired handle => some handle
  | _ => none

/-! ## The collection, once more -/

theorem collectionRemove_some (p : Ptr) (col : Collection) :
    collectionRemove (some p) col = col.remove p := by
  induction col with
  | nil => rfl
  | cons slot col ih => rw [collectionRemove, Collection.remove, ih]

theorem collectionRemove_none (col : Collection) : collectionRemove none col = col := by
  induction col with
  | nil => rfl
  | cons slot col ih =>
    rw [collectionRemove, ih]
    split
    · next h => rw [h]
    · rfl

theorem elems_replicate_none (n : Nat) : Collection.elems (List.replicate n none) = [] := by
  simp [Collection.elems]

theorem elems_append (col col' : Collection) :
    Collection.elems (col ++ col') = col.elems ++ col'.elems := by
  simp [Collection.elems]

variable {p : Ptr}

theorem fillHole_perm {col col' : Collection} (h : fillHole p col = some col') :
    col'.elems.Perm (p :: col.elems) := by
  induction col generalizing col' with
  | nil => cases h
  | cons slot col ih =>
    cases slot with
    | none =>
      cases h
      exact List.Perm.refl _
    | some q =>
      obtain ⟨rest, hrest, rfl⟩ := Option.map_eq_some_iff.mp h
      exact ((ih hrest).cons q).trans (List.Perm.swap p q _)

theorem collectionAdd_perm (p : Ptr) (col : Collection) :
    (collectionAdd p col).elems.Perm (p :: col.elems) := by
  rw [collectionAdd]
  cases h : fillHole p col with
  | none =>
    rw [Option.getD_none, elems_append, Collection.elems_cons_some, elems_replicate_none]
    exact perm_append_singleton p col.elems
  | some col' => exact fillHole_perm h

/-! ## What a monitor can count on -/

/-- The records in the collection are there, once each. -/
structure Monitor.Sound (m : Monitor) : Prop where
  nodup : m.devices.elems.Nodup
  live : ∀ p ∈ m.devices.elems, ∃ dev, m.heap p = some dev
  bound : ∀ p ∈ m.devices.elems, p < m.fresh

variable {m : Monitor} {dev : DeviceInfo}

theorem Monitor.device_live (h : m.heap p = some dev) : m.device p = .ok dev := by
  rw [Monitor.device, h]

/-- The records of a collection, in the order of their slots. -/
def Monitor.infos (m : Monitor) (col : Collection) : List DeviceInfo := col.elems.filterMap m.heap

theorem Monitor.handles_eq (m : Monitor) :
    m.handles = ((m.infos m.devices).map DeviceInfo.handle : List UInt32) := by
  rw [Monitor.handles, Monitor.infos, map_filterMap]

theorem Monitor.Sound.length_infos (h : m.Sound) : m.devices.elems.length = m.handles.card := by
  rw [Monitor.handles_eq, Multiset.coe_card, length_map, Monitor.infos,
    length_filterMap_eq_countP, countP_eq_length.mpr]
  intro p hp
  obtain ⟨dev, hdev⟩ := h.live p hp
  rw [hdev]
  rfl

theorem Monitor.Sound.add (h : m.Sound) (dev : DeviceRecord) :
    ∃ m', deviceAdd m dev = .ok m' ∧ m'.Sound ∧ m'.handles = dev.deviceId ::ₘ m.handles ∧
      m'.seen = m.seen ++ [⟨.deviceAdd, dev.info⟩] := by
  have hfresh : m.fresh ∉ m.devices.elems := fun hmem => Nat.lt_irrefl _ (h.bound _ hmem)
  have hperm := collectionAdd_perm m.fresh m.devices
  have hheap : ∀ p ∈ m.devices.elems,
      update m.heap m.fresh (some dev.info) p = m.heap p := by
    intro p hp
    refine update_of_ne ?_ _ _
    rintro rfl
    exact hfresh hp
  have hnew : ({ m with
      heap := update m.heap m.fresh (some dev.info)
      fresh := m.fresh + 1
      devices := collectionAdd m.fresh m.devices } : Monitor).device m.fresh = .ok dev.info :=
    Monitor.device_live (update_self _ _ _)
  refine ⟨{ m with
      heap := update m.heap m.fresh (some dev.info)
      fresh := m.fresh + 1
      devices := collectionAdd m.fresh m.devices
      seen := m.seen ++ [⟨.deviceAdd, dev.info⟩] }, ?_, ⟨?_, ?_, ?_⟩, ?_, rfl⟩
  · rw [deviceAdd, generateEvent, hnew]
    rfl
  · exact hperm.nodup_iff.mpr (nodup_cons.mpr ⟨hfresh, h.nodup⟩)
  · intro p hp
    rcases mem_cons.mp (hperm.mem_iff.mp hp) with rfl | hp
    · exact ⟨dev.info, update_self _ _ _⟩
    · obtain ⟨d, hd⟩ := h.live p hp
      exact ⟨d, (hheap p hp).trans hd⟩
  · intro p hp
    rcases mem_cons.mp (hperm.mem_iff.mp hp) with rfl | hp
    · exact Nat.lt_succ_self _
    · exact Nat.lt_succ_of_lt (h.bound p hp)
  · have hcongr : (m.devices.elems.filterMap fun p =>
        (update m.heap m.fresh (some dev.info) p).map DeviceInfo.handle) =
        m.devices.elems.filterMap fun p => (m.heap p).map DeviceInfo.handle :=
      filterMap_congr fun p hp => by rw [hheap p hp]
    have hp := Multiset.coe_eq_coe.mpr (hperm.filterMap fun p =>
      (update m.heap m.fresh (some dev.info) p).map DeviceInfo.handle)
    refine hp.trans ?_
    rw [filterMap_cons, update_self, hcongr]
    rfl

theorem Monitor.Sound.drop (h : m.Sound) (hp : p ∈ m.devices.elems) (hdev : m.heap p = some dev) :
    (m.drop (some p)).Sound ∧ (m.drop (some p)).handles = m.handles.erase dev.handle := by
  have helems : (m.drop (some p)).devices.elems = m.devices.elems.erase p := by
    show (collectionRemove (some p) m.devices).elems = _
    rw [collectionRemove_some, Collection.elems_remove]
  have hheap : ∀ q ∈ m.devices.elems.erase p, (m.drop (some p)).heap q = m.heap q := by
    intro q hq
    refine update_of_ne ?_ _ _
    rintro rfl
    exact (h.nodup.mem_erase_iff.mp hq).1 rfl
  refine ⟨⟨?_, ?_, ?_⟩, ?_⟩
  · rw [helems]
    exact h.nodup.erase p
  · intro q hq
    rw [helems] at hq
    obtain ⟨d, hd⟩ := h.live q (mem_of_mem_erase hq)
    exact ⟨d, (hheap q hq).trans hd⟩
  · intro q hq
    rw [helems] at hq
    exact h.bound q (mem_of_mem_erase hq)
  · have hcongr : ((m.devices.elems.erase p).filterMap fun q =>
        ((m.drop (some p)).heap q).map DeviceInfo.handle) =
        (m.devices.elems.erase p).filterMap fun q => (m.heap q).map DeviceInfo.handle :=
      filterMap_congr fun q hq => by rw [hheap q hq]
    have hperm := Multiset.coe_eq_coe.mpr ((perm_cons_erase hp).filterMap fun q =>
      (m.heap q).map DeviceInfo.handle)
    rw [filterMap_cons, hdev] at hperm
    rw [Monitor.handles, Monitor.handles, helems, hcongr, hperm]
    exact (Multiset.erase_cons_head _ _).symm

/-! ## Looking for a handle -/

/-- `Monitor.Clear`, for the slots from some point on. -/
def Monitor.ClearIn (m : Monitor) (handle : UInt32) (slots : Collection) : Prop :=
  ∀ pre post, slots = pre ++ none :: post →
    ∃ p dev, some p ∈ pre ∧ m.heap p = some dev ∧ dev.handle = handle

theorem not_clearIn_none (m : Monitor) (handle : UInt32) (slots : Collection) :
    ¬ m.ClearIn handle (none :: slots) := by
  intro h
  obtain ⟨p, -, hp, -⟩ := h [] slots rfl
  cases hp

variable {handle : UInt32}

theorem clearIn_cons {slots : Collection} (hdev : m.heap p = some dev) (hne : dev.handle ≠ handle) :
    m.ClearIn handle (some p :: slots) ↔ m.ClearIn handle slots := by
  constructor
  · intro h pre post hsplit
    obtain ⟨q, d, hq, hd, hh⟩ := h (some p :: pre) post (by rw [hsplit, cons_append])
    rcases mem_cons.mp hq with hqp | hq
    · cases hqp
      rw [hdev] at hd
      cases hd
      exact absurd hh hne
    · exact ⟨q, d, hq, hd, hh⟩
  · intro h pre post hsplit
    cases pre with
    | nil => cases hsplit
    | cons slot pre =>
      rw [cons_append] at hsplit
      obtain ⟨rfl, hrest⟩ := List.cons.inj hsplit
      obtain ⟨q, d, hq, hd, hh⟩ := h pre post hrest
      exact ⟨q, d, mem_cons_of_mem _ hq, hd, hh⟩

theorem clearIn_found {m : Monitor} {handle : UInt32} {p : Ptr} {dev : DeviceInfo}
    {slots : Collection} (hdev : m.heap p = some dev) (heq : dev.handle = handle) :
    m.ClearIn handle (some p :: slots) := by
  intro pre post hsplit
  cases pre with
  | nil => cases hsplit
  | cons slot pre =>
    rw [cons_append] at hsplit
    obtain ⟨rfl, -⟩ := List.cons.inj hsplit
    exact ⟨p, dev, mem_cons_self, hdev, heq⟩

/-- What `devices_find` finds. -/
def Monitor.Finds (m : Monitor) (handle : UInt32) (slots : Collection) : Option Ptr → Prop
  | some p => some p ∈ slots ∧ ∃ dev, m.heap p = some dev ∧ dev.handle = handle
  | none => ∀ p dev, some p ∈ slots → m.heap p = some dev → dev.handle ≠ handle

theorem devicesFind_spec (m : Monitor) (handle : UInt32) (slots : Collection)
    (hlive : ∀ p, some p ∈ slots → ∃ dev, m.heap p = some dev) :
    (m.ClearIn handle slots →
      ∃ r, devicesFind m handle slots = .ok r ∧ m.Finds handle slots r) ∧
    (¬ m.ClearIn handle slots → devicesFind m handle slots = .error .nullSlot) := by
  induction slots with
  | nil =>
    refine ⟨fun _ => ⟨none, rfl, fun p dev hp => by cases hp⟩, fun h => absurd ?_ h⟩
    intro pre post hsplit
    simp at hsplit
  | cons slot slots ih =>
    cases slot with
    | none => exact ⟨fun h => absurd h (not_clearIn_none m handle slots), fun _ => rfl⟩
    | some p =>
      obtain ⟨dev, hdev⟩ := hlive p mem_cons_self
      obtain ⟨hfinds, hfails⟩ := ih fun q hq => hlive q (mem_cons_of_mem _ hq)
      have hnext : devicesFind m handle (some p :: slots) =
          if dev.handle = handle then .ok (some p) else devicesFind m handle slots := by
        rw [devicesFind, Monitor.device_live hdev]
        rfl
      rw [hnext]
      by_cases heq : dev.handle = handle
      · rw [if_pos heq]
        refine ⟨fun _ => ⟨some p, rfl, mem_cons_self, dev, hdev, heq⟩, fun h => ?_⟩
        exact absurd (clearIn_found hdev heq) h
      · rw [if_neg heq, clearIn_cons hdev heq]
        refine ⟨fun h => ?_, hfails⟩
        obtain ⟨r, hr, hfound⟩ := hfinds h
        refine ⟨r, hr, ?_⟩
        cases r with
        | some q => exact ⟨mem_cons_of_mem _ hfound.1, hfound.2⟩
        | none =>
          intro q d hq hd
          rcases mem_cons.mp hq with hqp | hq
          · cases hqp
            rw [hdev] at hd
            cases hd
            exact heq
          · exact hfound q d hq hd

theorem Monitor.Sound.find (h : m.Sound) (handle : UInt32) :
    (m.Clear handle → ∃ r, devicesFind m handle m.devices = .ok r ∧ m.Finds handle m.devices r) ∧
    (¬ m.Clear handle → devicesFind m handle m.devices = .error .nullSlot) :=
  devicesFind_spec m handle m.devices fun p hp => h.live p (Collection.mem_elems.mpr hp)

theorem Monitor.not_mem_handles (h : m.Finds handle m.devices none) : handle ∉ m.handles := by
  rw [Monitor.handles, Multiset.mem_coe, mem_filterMap]
  rintro ⟨p, hp, hhandle⟩
  obtain ⟨dev, hdev, hh⟩ := Option.map_eq_some_iff.mp hhandle
  exact h p dev (Collection.mem_elems.mp hp) hdev hh

theorem Monitor.mem_handles (hp : p ∈ m.devices.elems) (hdev : m.heap p = some dev) :
    dev.handle ∈ m.handles := by
  rw [Monitor.handles, Multiset.mem_coe, mem_filterMap]
  exact ⟨p, hp, by rw [hdev]; rfl⟩

/-- The records `devs` are gone, and the callback has been told. -/
structure Monitor.GaveUp (m m' : Monitor) (devs : List DeviceInfo) : Prop where
  sound : m'.Sound
  handles : m.handles = ((devs.map DeviceInfo.handle : List UInt32) : Multiset UInt32) + m'.handles
  seen : m'.seen = m.seen ++ devs.map (UeEvent.mk .deviceRemove)

theorem Monitor.Sound.remove (h : m.Sound) (hclear : m.Clear handle) :
    ∃ m' devs, deviceRemove m handle = .ok m' ∧ m.GaveUp m' devs ∧
      m'.handles = m.handles.erase handle := by
  obtain ⟨r, hr, hfound⟩ := (h.find handle).1 hclear
  rw [deviceRemove, hr]
  cases r with
  | none =>
    have hno := Monitor.not_mem_handles hfound
    exact ⟨m, [], rfl, ⟨h, (Multiset.zero_add _).symm, (append_nil _).symm⟩,
      (Multiset.erase_of_notMem hno).symm⟩
  | some p =>
    obtain ⟨hp, dev, hdev, rfl⟩ := hfound
    have hp' := Collection.mem_elems.mpr hp
    obtain ⟨hsound, hhandles⟩ := h.drop hp' hdev
    refine ⟨{ m.drop (some p) with seen := m.seen ++ [⟨.deviceRemove, dev⟩] }, [dev], ?_,
      ⟨⟨hsound.nodup, hsound.live, hsound.bound⟩, ?_, rfl⟩, hhandles⟩
    · show (generateEvent m .deviceRemove (some p) >>= fun m => .ok (m.drop (some p))) = _
      rw [generateEvent, Monitor.device_live hdev]
      rfl
    · show m.handles = {dev.handle} + (m.drop (some p)).handles
      rw [hhandles, Multiset.singleton_add]
      exact (Multiset.cons_erase (Monitor.mem_handles hp' hdev)).symm

theorem Monitor.Sound.pair (h : m.Sound) (hclear : m.Clear handle) :
    ∃ (m' : Monitor) (told : List DeviceInfo), devicePaired m handle = .ok m' ∧ m'.Sound ∧
      m'.handles = m.handles ∧ m'.seen = m.seen ++ told.map (UeEvent.mk .devicePaired) := by
  obtain ⟨r, hr, hfound⟩ := (h.find handle).1 hclear
  rw [devicePaired, hr]
  cases r with
  | none => exact ⟨m, [], rfl, h, rfl, (append_nil _).symm⟩
  | some p =>
    obtain ⟨-, dev, hdev, -⟩ := hfound
    refine ⟨{ m with seen := m.seen ++ [⟨.devicePaired, dev⟩] }, [dev], ?_,
      ⟨h.nodup, h.live, h.bound⟩, rfl, rfl⟩
    show generateEvent m .devicePaired (some p) = _
    rw [generateEvent, Monitor.device_live hdev]
    rfl

/-! ## The connection is lost -/

theorem remove_behind_holes (i : Nat) (p : Ptr) (rest : Collection) :
    collectionRemove (some p) (List.replicate i none ++ some p :: rest) =
      List.replicate (i + 1) none ++ rest := by
  induction i with
  | zero =>
    rw [replicate_zero, nil_append, collectionRemove, if_pos rfl]
    rfl
  | succ i ih =>
    rw [replicate_succ, cons_append, collectionRemove, if_neg (by nofun), ih]
    rfl

theorem getD_behind_holes (i : Nat) (slot : Option Ptr) (rest : Collection) :
    (List.replicate i none ++ slot :: rest).getD i none = slot := by
  induction i with
  | zero => rfl
  | succ i ih =>
    rw [replicate_succ, cons_append, getD_cons_succ]
    exact ih

theorem dropFrom_spec (rest : Collection) (i : Nat) (h : m.Sound)
    (hdevices : m.devices = List.replicate i none ++ rest) :
    ∃ m', (List.range' i rest.length).foldlM dropSlot m = .ok m' ∧
      m'.devices = List.replicate (i + rest.length) none ∧
      m'.seen = m.seen ++ (m.infos rest).map (UeEvent.mk .deviceRemove) := by
  induction rest generalizing i m with
  | nil =>
    refine ⟨m, rfl, ?_, ?_⟩
    · rw [hdevices, append_nil]
      rfl
    · exact (append_nil _).symm
  | cons slot rest ih =>
    have hlen : i + (slot :: rest).length = (i + 1) + rest.length := by
      rw [length_cons]
      omega
    have hholes : List.replicate i none ++ none :: rest = List.replicate (i + 1) none ++ rest := by
      rw [replicate_succ', append_assoc]
      rfl
    rw [length_cons, List.range'_succ, foldlM_cons, ← length_cons, hlen]
    have hslot : m.devices.getD i none = slot := by
      rw [hdevices]
      exact getD_behind_holes i slot rest
    cases slot with
    | none =>
      have hstep : dropSlot m i = .ok m := by
        rw [dropSlot, hslot]
        show Except.ok (m.drop none) = _
        rw [Monitor.drop, collectionRemove_none]
      rw [hstep]
      exact ih (i + 1) h (hdevices.trans hholes)
    | some p =>
      have hp : p ∈ m.devices.elems := by
        rw [hdevices, elems_append, Collection.elems_cons_some]
        exact mem_append_right _ mem_cons_self
      obtain ⟨dev, hdev⟩ := h.live p hp
      obtain ⟨hsound, -⟩ := h.drop hp hdev
      have hstep : dropSlot m i =
          .ok { m.drop (some p) with seen := m.seen ++ [⟨.deviceRemove, dev⟩] } := by
        rw [dropSlot, hslot, generateEvent, Monitor.device_live hdev]
        rfl
      have hnext : (m.drop (some p)).devices = List.replicate (i + 1) none ++ rest := by
        show collectionRemove (some p) m.devices = _
        rw [hdevices]
        exact remove_behind_holes i p rest
      rw [hstep]
      obtain ⟨m', hrun, hempty, hseen⟩ := ih (i + 1)
        (m := { m.drop (some p) with seen := m.seen ++ [⟨.deviceRemove, dev⟩] })
        ⟨hsound.nodup, hsound.live, hsound.bound⟩ hnext
      refine ⟨m', hrun, hempty, hseen.trans ?_⟩
      have hfresh : p ∉ Collection.elems rest := by
        have hnodup := h.nodup
        rw [hdevices, elems_append, elems_replicate_none, Collection.elems_cons_some] at hnodup
        exact (nodup_cons.mp hnodup).1
      have hcongr : (m.drop (some p)).infos rest = m.infos rest := by
        refine filterMap_congr fun q hq => ?_
        refine update_of_ne ?_ _ _
        rintro rfl
        exact hfresh hq
      have hinfos : m.infos (some p :: rest) = dev :: m.infos rest := by
        rw [Monitor.infos, Collection.elems_cons_some, filterMap_cons, hdev]
        rfl
      show (m.seen ++ [⟨.deviceRemove, dev⟩]) ++ ((m.drop (some p)).infos rest).map _ = _
      rw [hcongr, hinfos, append_assoc]
      rfl

theorem Monitor.Sound.dropAll (h : m.Sound) :
    ∃ m', Libusbmuxd.dropAll m = .ok m' ∧ m.GaveUp m' (m.infos m.devices) ∧ m'.handles = 0 := by
  obtain ⟨m', hrun, hempty, hseen⟩ := dropFrom_spec m.devices 0 h rfl
  have helems : m'.devices.elems = [] := by
    rw [hempty]
    exact elems_replicate_none _
  have hzero : m'.handles = 0 := by
    rw [Monitor.handles, helems]
    rfl
  refine ⟨m', ?_, ⟨⟨?_, ?_, ?_⟩, ?_, hseen⟩, hzero⟩
  · rw [Libusbmuxd.dropAll, range_eq_range']
    exact hrun
  · rw [helems]
    exact nodup_nil
  · rw [helems]
    nofun
  · rw [helems]
    nofun
  · rw [hzero, Multiset.add_zero, Monitor.handles_eq]

/-! ## What the callback is told -/

theorem timesTold_append (event : UeType) (handle : UInt32) (seen seen' : List UeEvent) :
    timesTold event handle (seen ++ seen') =
      timesTold event handle seen + timesTold event handle seen' :=
  countP_append

theorem timesTold_same (event : UeType) (handle : UInt32) (devs : List DeviceInfo) :
    timesTold event handle (devs.map (UeEvent.mk event)) =
      Multiset.count handle (devs.map DeviceInfo.handle : List UInt32) := by
  rw [timesTold, Multiset.coe_count, countP_map, List.count, countP_map]
  refine countP_congr fun dev _ => ?_
  simp

theorem timesTold_other {event event' : UeType} (h : event' ≠ event) (handle : UInt32)
    (devs : List DeviceInfo) : timesTold event handle (devs.map (UeEvent.mk event')) = 0 := by
  rw [timesTold, countP_eq_zero]
  intro e he
  obtain ⟨dev, -, rfl⟩ := mem_map.mp he
  simp [h]

theorem prefix_append_cases {α : Type} {pre seen told : List α} (h : pre <+: seen ++ told) :
    pre <+: seen ∨ ∃ told', told' <+: told ∧ pre = seen ++ told' := by
  rcases prefix_or_prefix_of_prefix h (prefix_append seen told) with hpre | hpre
  · exact .inl hpre
  · obtain ⟨told', rfl⟩ := hpre
    exact .inr ⟨told', (prefix_append_right_inj seen).mp h, rfl⟩

variable {msgs : List Message} {msg : Message}

theorem Faithful.gaveUp {m' : Monitor} {devs : List DeviceInfo} (h : Faithful msgs m)
    (hgave : m.GaveUp m' devs)
    (hmsg : ∀ handle, timesAttached handle (msgs ++ [msg]) = timesAttached handle msgs)
    (hafter : m'.handles = attachedAfter (msgs ++ [msg])) : Faithful (msgs ++ [msg]) m' := by
  have hcount : ∀ handle, m.handles.count handle =
      Multiset.count handle (devs.map DeviceInfo.handle : List UInt32) + m'.handles.count handle := by
    intro handle
    rw [hgave.handles, Multiset.count_add]
  refine ⟨hafter, hgave.sound.length_infos, ?_, ?_, ?_⟩
  · intro handle
    rw [hgave.seen, timesTold_append, timesTold_other (by nofun), Nat.add_zero, h.added, hmsg]
  · intro pre hpre handle
    rw [hgave.seen] at hpre
    rcases prefix_append_cases hpre with hpre | ⟨told, htold, rfl⟩
    · exact h.justified pre hpre handle
    · have honce := h.once handle
      have hle : timesTold .deviceRemove handle told ≤
          timesTold .deviceRemove handle (devs.map (UeEvent.mk .deviceRemove)) :=
        htold.sublist.countP_le
      rw [timesTold_same] at hle
      rw [timesTold_append, timesTold_append]
      have := hcount handle
      omega
  · intro handle
    rw [hgave.seen, timesTold_append, timesTold_append, timesTold_same,
      timesTold_other (by nofun), ← h.once handle, hcount]
    omega

theorem Faithful.told {msgs : List Message} {m m' : Monitor} {devs : List DeviceInfo} {msg : Message}
    (h : Faithful msgs m) (hsound : m'.Sound) (hhandles : m'.handles = m.handles)
    (hseen : m'.seen = m.seen ++ devs.map (UeEvent.mk .devicePaired))
    (hmsg : ∀ handle, timesAttached handle (msgs ++ [msg]) = timesAttached handle msgs)
    (hafter : attachedAfter (msgs ++ [msg]) = attachedAfter msgs) :
    Faithful (msgs ++ [msg]) m' := by
  refine ⟨(hhandles.trans h.handles).trans hafter.symm, hsound.length_infos, ?_, ?_, ?_⟩
  · intro handle
    rw [hseen, timesTold_append, timesTold_other (by nofun), Nat.add_zero, h.added, hmsg]
  · intro pre hpre handle
    rw [hseen] at hpre
    rcases prefix_append_cases hpre with hpre | ⟨told, htold, rfl⟩
    · exact h.justified pre hpre handle
    · have hzero : timesTold .deviceRemove handle told = 0 := by
        have hle : timesTold .deviceRemove handle told ≤
            timesTold .deviceRemove handle (devs.map (UeEvent.mk .devicePaired)) :=
          htold.sublist.countP_le
        rw [timesTold_other (by nofun)] at hle
        exact Nat.le_zero.mp hle
      have hbefore := h.justified m.seen prefix_rfl handle
      rw [timesTold_append, timesTold_append]
      omega
  · intro handle
    rw [hseen, timesTold_append, timesTold_append, timesTold_other (by nofun),
      timesTold_other (by nofun), hhandles]
    exact h.once handle

theorem Faithful.attached {m' : Monitor} {dev : DeviceRecord} (h : Faithful msgs m)
    (hsound : m'.Sound) (hhandles : m'.handles = dev.deviceId ::ₘ m.handles)
    (hseen : m'.seen = m.seen ++ [⟨.deviceAdd, dev.info⟩]) :
    Faithful (msgs ++ [.attached dev]) m' := by
  have hafter : attachedAfter (msgs ++ [.attached dev]) = dev.deviceId ::ₘ attachedAfter msgs := by
    rw [attachedAfter, foldl_append]
    rfl
  have htold : ∀ handle, timesTold .deviceAdd handle m'.seen =
      timesTold .deviceAdd handle m.seen + if dev.deviceId = handle then 1 else 0 := by
    intro handle
    rw [hseen, timesTold_append]
    simp [timesTold, DeviceRecord.info]
  have hremoved : ∀ handle, timesTold .deviceRemove handle m'.seen =
      timesTold .deviceRemove handle m.seen := by
    intro handle
    rw [hseen, timesTold_append]
    simp [timesTold]
  refine ⟨?_, hsound.length_infos, ?_, ?_, ?_⟩
  · rw [hhandles, h.handles, hafter]
  · intro handle
    rw [htold, h.added, timesAttached, timesAttached, countP_append]
    simp
  · intro pre hpre handle
    rw [hseen] at hpre
    rcases prefix_append_cases hpre with hpre | ⟨told, hprefix, rfl⟩
    · exact h.justified pre hpre handle
    · have hzero : timesTold .deviceRemove handle told = 0 := by
        have hle : timesTold .deviceRemove handle told ≤
            timesTold .deviceRemove handle [⟨.deviceAdd, dev.info⟩] :=
          hprefix.sublist.countP_le
        simpa [timesTold] using hle
      have hbefore := h.justified m.seen prefix_rfl handle
      rw [timesTold_append, timesTold_append]
      omega
  · intro handle
    have honce := h.once handle
    rw [htold, hremoved, hhandles, Multiset.count_cons]
    by_cases heq : dev.deviceId = handle
    · rw [if_pos heq, if_pos heq.symm]
      omega
    · rw [if_neg heq, if_neg (fun h => heq h.symm)]
      omega

/-! ## Whole runs -/

/-- A message after which the monitor looks for nothing, or finds it without meeting a hole. -/
def Monitor.ClearFor (m : Monitor) (msg : Message) : Prop :=
  ∀ handle, msg.names = some handle → m.Clear handle

theorem timesAttached_snoc (h : ∀ dev, msg ≠ .attached dev) (msgs : List Message)
    (handle : UInt32) : timesAttached handle (msgs ++ [msg]) = timesAttached handle msgs := by
  rw [timesAttached, countP_append]
  cases msg with
  | attached dev => exact absurd rfl (h dev)
  | _ => rfl

theorem attachedAfter_snoc (msgs : List Message) (msg : Message) :
    attachedAfter (msgs ++ [msg]) = (match msg with
      | .attached dev => dev.deviceId ::ₘ attachedAfter msgs
      | .detached handle => (attachedAfter msgs).erase handle
      | .lost => 0
      | _ => attachedAfter msgs) := by
  rw [attachedAfter, foldl_append]
  cases msg <;> rfl

theorem Monitor.Sound.step (h : m.Sound) (hf : Faithful msgs m) (hclear : m.ClearFor msg) :
    ∃ m', getNextEvent m msg = .ok m' ∧ m'.Sound ∧ Faithful (msgs ++ [msg]) m' := by
  cases msg with
  | attached dev =>
    obtain ⟨m', hrun, hsound, hhandles, hseen⟩ := h.add dev
    exact ⟨m', hrun, hsound, hf.attached hsound hhandles hseen⟩
  | detached handle =>
    obtain ⟨m', devs, hrun, hgave, hhandles⟩ := h.remove (hclear handle rfl)
    refine ⟨m', hrun, hgave.sound, hf.gaveUp hgave (timesAttached_snoc (by nofun) msgs) ?_⟩
    rw [hhandles, hf.handles, attachedAfter_snoc]
  | paired handle =>
    obtain ⟨m', told, hrun, hsound, hhandles, hseen⟩ := h.pair (hclear handle rfl)
    exact ⟨m', hrun, hsound, hf.told hsound hhandles hseen (timesAttached_snoc (by nofun) msgs)
      (attachedAfter_snoc msgs _)⟩
  | unexpected =>
    have hseen : m.seen = m.seen ++ ([] : List DeviceInfo).map (UeEvent.mk .devicePaired) :=
      (append_nil m.seen).symm
    exact ⟨m, rfl, h, hf.told h rfl hseen
      (timesAttached_snoc (by nofun) msgs) (attachedAfter_snoc msgs _)⟩
  | lost =>
    obtain ⟨m', hrun, hgave, hzero⟩ := h.dropAll
    refine ⟨m', hrun, hgave.sound, hf.gaveUp hgave (timesAttached_snoc (by nofun) msgs) ?_⟩
    rw [hzero, attachedAfter_snoc]

theorem Monitor.Sound.step_fails (h : m.Sound) (hclear : ¬ m.ClearFor msg) :
    getNextEvent m msg = .error .nullSlot := by
  rw [Monitor.ClearFor, not_forall] at hclear
  obtain ⟨handle, hclear⟩ := hclear
  rw [Classical.not_imp] at hclear
  obtain ⟨hnames, hhole⟩ := hclear
  have hfails := (h.find handle).2 hhole
  cases msg with
  | detached x =>
    cases hnames
    rw [getNextEvent, deviceRemove, hfails]
    rfl
  | paired x =>
    cases hnames
    rw [getNextEvent, devicePaired, hfails]
    rfl
  | attached dev => cases hnames
  | unexpected => cases hnames
  | lost => cases hnames

theorem getNextEvents_snoc (msgs : List Message) (msg : Message) :
    getNextEvents (msgs ++ [msg]) = getNextEvents msgs >>= fun m => getNextEvent m msg := by
  rw [getNextEvents, foldlM_append]
  simp only [foldlM_cons, foldlM_nil, bind_pure]
  rfl

theorem start_sound : Monitor.start.Sound := ⟨nodup_nil, nofun, nofun⟩

theorem start_faithful : Faithful [] .start := by
  refine ⟨rfl, rfl, fun _ => rfl, ?_, fun _ => rfl⟩
  intro pre hpre handle
  rw [prefix_nil.mp hpre]
  exact le_rfl

theorem faithful_of_run {msgs : List Message} {m : Monitor} (h : getNextEvents msgs = .ok m) :
    m.Sound ∧ Faithful msgs m := by
  induction msgs using reverseRecOn generalizing m with
  | nil =>
    cases h
    exact ⟨start_sound, start_faithful⟩
  | append_singleton msgs msg ih =>
    rw [getNextEvents_snoc] at h
    cases hrun : getNextEvents msgs with
    | error e =>
      rw [hrun] at h
      cases h
    | ok m0 =>
      obtain ⟨hsound, hf⟩ := ih hrun
      have hstep : getNextEvent m0 msg = .ok m := by
        rw [hrun] at h
        exact h
      by_cases hclear : m0.ClearFor msg
      · obtain ⟨m', hm', hsound', hf'⟩ := hsound.step hf hclear
        rw [hstep] at hm'
        cases hm'
        exact ⟨hsound', hf'⟩
      · rw [hsound.step_fails hclear] at hstep
        cases hstep

/-- **The stream of events.**  At every moment of a sequence of messages the monitor is there and
right, exactly if no `Detached` and no `Paired` comes while there is an empty slot in front of
the record it names. -/
theorem getNextEvents_faithful_iff (msgs : List Message) :
    (∀ pre, pre <+: msgs → ∃ m, getNextEvents pre = .ok m ∧ Faithful pre m) ↔
      ∀ pre msg, pre ++ [msg] <+: msgs → ∀ m, getNextEvents pre = .ok m → ∀ handle,
        msg.names = some handle → m.Clear handle := by
  constructor
  · intro h pre msg hpre m hm
    obtain ⟨m', hm', -⟩ := h (pre ++ [msg]) hpre
    by_contra hclear
    rw [getNextEvents_snoc, hm] at hm'
    have hfails := (faithful_of_run hm).1.step_fails hclear
    have hstep : getNextEvent m msg = .ok m' := hm'
    rw [hfails] at hstep
    cases hstep
  · intro h pre hpre
    induction pre using reverseRecOn with
    | nil => exact ⟨.start, rfl, start_faithful⟩
    | append_singleton pre msg ih =>
      obtain ⟨m, hm, hf⟩ := ih ((prefix_append _ _).trans hpre)
      obtain ⟨m', hm', -, hf'⟩ := (faithful_of_run hm).1.step hf (h pre msg hpre m hm)
      refine ⟨m', ?_, hf'⟩
      rw [getNextEvents_snoc, hm]
      exact hm'

/-- A device with some serial number. -/
def someDevice (handle : UInt32) : DeviceRecord := ⟨handle, 0x12a8, ⟨List.replicate 256 0, length_replicate⟩⟩

/-- Two devices are attached and detached in the same order: the second `Detached` meets the slot of
the first device. -/
theorem eventStream_refuted :
    ¬ ∀ msgs pre, pre <+: msgs → ∃ m, getNextEvents pre = .ok m ∧ Faithful pre m := by
  intro h
  obtain ⟨m, hm, -⟩ := h [.attached (someDevice 1), .attached (someDevice 2), .detached 1, .detached 2]
    _ prefix_rfl
  have hfault : getNextEvents [.attached (someDevice 1), .attached (someDevice 2), .detached 1,
      .detached 2] = .error .nullSlot := rfl
  rw [hfault] at hm
  cases hm

end IDeviceStack.Libusbmuxd
