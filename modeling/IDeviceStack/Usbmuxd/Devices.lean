/-
# `Usbmuxd.Devices` — devices come, speak and go

A device is on the list from `device_add` on, but its connections are initialised only
when its version packet comes in; a version that is not known frees it at once.
`device_remove` tears its connections down while it holds `device_list_mutex`.

**Proved here.**  The handlers of `usb.c`'s events keep the invariant, or stop with a
fault that the event has to answer for.
-/
import IDeviceStack.Usbmuxd.Requests

namespace IDeviceStack.Usbmuxd.Daemon

open Lib Function

variable {env : Outside} {v : Scope} {w w' : World} {E : Fault → Prop}
  {c d k : Ptr} {conn : Conn} {dev : Device} {slots : Collection} {cl : Client}

/-! ## Listeners -/

/-- Only clients were touched. -/
structure Clerical (w w' : World) : Prop where
  devices : w'.devices = w.devices
  deviceList : w'.deviceList = w.deviceList
  clientList : w'.clientList = w.clientList

theorem Clerical.trans {w1 w2 : World} (h : Clerical w w1) (h' : Clerical w1 w2) : Clerical w w2 :=
  ⟨h'.devices.trans h.devices, h'.deviceList.trans h.deviceList, h'.clientList.trans h.clientList⟩

theorem SameBut.clerical (h : SameBut k w w') : Clerical w w' :=
  ⟨h.devices, h.deviceList, h.clientList⟩

theorem forListeners_spec {body : Ptr → Handler Bool}
    (hbody : ∀ k cl w, Inv env v w → w.clients k = some cl → cl.state = .listen →
      Meets (body k) w (fun _ w' => Answered env v k cl w w') E) (h : Inv env v w) :
    Meets (forListeners body) w (fun _ w' => Inv env v w' ∧ Clerical w w') E := by
  rw [forListeners, meets_bind, meets_get]
  refine Meets.forM ?_ ⟨h, rfl, rfl, rfl⟩
  rintro k hmem t ⟨ht, hsame⟩
  obtain ⟨cl, hk⟩ : ∃ cl, t.clients k = some cl := by
    rw [← hsame.clientList] at hmem
    exact Option.isSome_iff_exists.mp ((ht.shape.cliLive k).mp hmem)
  rw [meets_bind, meets_getClient hk]
  by_cases hlisten : cl.state = .listen
  · rw [if_pos hlisten, meets_bind]
    refine (hbody k cl t ht hk hlisten).post ?_
    rintro _ t' ⟨cl', _, _, ht', hbut⟩
    exact ⟨ht', hsame.trans hbut.clerical⟩
  · rw [if_neg hlisten]
    exact ⟨ht, hsame⟩

theorem deviceSetVisible_spec (h : Inv env v w) (hlock : v.deviceLock = false) (id : Nat) :
    Meets (deviceSetVisible id) w (fun _ w' => Inv env v w') E := by
  have hw : w.deviceLock = false := h.deviceLock.trans hlock
  have h1 := h.lockDevices true
  rw [deviceSetVisible, meets_bind, meets_lockDevices hw, meets_bind, meets_get, meets_bind,
    meets_search h1.devices_live]
  cases hfind : List.find? (fun q => (w.devices q).any fun dev => decide (dev.id = id))
      w.deviceList.elems with
  | none => exact h1.unlockDevices hlock
  | some d =>
    obtain ⟨-, dev, hd, -⟩ := find?_any hfind
    show Meets (getDev d >>= _) _ _ E
    have hd1 : ({ w with deviceLock := true } : World).devices d = some dev := hd
    rw [meets_bind, meets_getDev hd1, meets_bind, meets_modify]
    have h2 := h1.touchDev hd1 (show ({ dev with visible := true } : Device).id = dev.id from rfl)
      rfl rfl rfl
    exact h2.unlockDevices hlock

/-- **`client_device_add`.** -/
theorem clientDeviceAdd_spec (h : Inv env v w) (hlock : v.deviceLock = false)
    (hclock : v.clientLock = false) (hE : E .overrun) (id usbdev : Nat) :
    Meets (clientDeviceAdd env id usbdev) w (fun _ w' => Inv env v w') E := by
  have hw : w.clientLock = false := h.clientLock.trans hclock
  rw [clientDeviceAdd, meets_bind, meets_lockClients hw]
  refine (deviceSetVisible_spec (h.lockClients true) hlock id).bind ?_
  intro _ w1 h1
  refine (forListeners_spec ?_ h1).bind ?_
  · exact fun k cl w2 h2 hk hs => notifyDeviceAdd_spec h2 hk (.inr (.inl hs)) hE id usbdev
  · exact fun _ w2 h2 => h2.1.unlockClients hclock

/-- **`client_device_remove`.** -/
theorem clientDeviceRemove_spec (h : Inv env v w) (hclock : v.clientLock = false) (hE : E .overrun)
    (id : Nat) : Meets (clientDeviceRemove env id) w
      (fun _ w' => Inv env v w' ∧ Clerical w w') E := by
  have hw : w.clientLock = false := h.clientLock.trans hclock
  rw [clientDeviceRemove, meets_bind, meets_lockClients hw]
  refine (forListeners_spec ?_ (h.lockClients true)).bind ?_
  · exact fun k cl w2 h2 hk hs => notifyDeviceRemove_spec h2 hk (.inr (.inl hs)) hE id
  · exact fun _ w2 h2 => ⟨h2.1.unlockClients hclock, h2.2.devices, h2.2.deviceList, h2.2.clientList⟩

/-! ## `device_add` -/

theorem le_nextFreeId (used : List Nat) (n id : Nat) : id ≤ nextFreeId used n id := by
  induction n generalizing id with
  | zero => exact Nat.le_refl id
  | succ n ih =>
    rw [nextFreeId]
    split
    · exact Nat.le_of_succ_le (ih (id + 1))
    · exact Nat.le_refl id

theorem getNextDeviceId_spec (h : Inv env v w) (hlock : v.deviceLock = false) :
    Meets getNextDeviceId w (fun id w' => w.nextDeviceId ≤ id ∧
      w' = { w with nextDeviceId := id + 1 }) E := by
  have hw : w.deviceLock = false := h.deviceLock.trans hlock
  have hread : ∀ q a (R : Device → World → Prop),
      ({ w with deviceLock := true } : World).devices q = some a →
      (Meets (getDev q) { w with deviceLock := true } R E ↔ R (id a) { w with deviceLock := true }) :=
    fun q a R hq => meets_getDev hq
  rw [getNextDeviceId, meets_bind, meets_lockDevices hw, meets_bind, meets_get, meets_bind,
    meets_mapM hread (h.lockDevices true).devices_live, meets_bind, meets_unlockDevices, meets_bind,
    meets_modify, meets_pure]
  refine ⟨le_nextFreeId _ _ _, ?_⟩
  cases w
  cases hw
  rfl

/-- **`device_add`.** -/
theorem deviceAdd_spec (h : Inv env v w) (hlock : v.deviceLock = false) (usbdev : Nat)
    (zeroed : Bool) : Meets (deviceAdd env usbdev zeroed) w (fun _ w' => Inv env v w') E := by
  have hnew : w.devices w.fresh = none := (h.shape.below w.fresh (Nat.le_refl _)).1
  have hw : w.deviceLock = false := h.deviceLock.trans hlock
  rw [deviceAdd]
  refine (getNextDeviceId_spec h hlock).bind ?_
  rintro id w1 ⟨hid, rfl⟩
  rw [meets_bind, meets_get, meets_bind, meets_modify]
  generalize hdev : (⟨id, usbdev, .init, 0, false, if zeroed then some [] else none, false, 1⟩ :
    Device) = dev
  have hdid : dev.id = id := by rw [← hdev]
  refine (sendPacket_spec (update_self w.fresh (some dev) w.devices) .version _ []).bind ?_
  rintro sent w2 ⟨hq, he⟩
  cases sent with
  | true =>
    rw [if_pos rfl, meets_bind, meets_lockDevices (hq.deviceLock.trans hw), meets_bind,
      meets_modify, meets_unlockDevices]
    have hlater : w.nextDeviceId ≤ dev.id := by
      rw [hdid]
      exact hid
    have hadd := h.addDevice hlater (by rw [← hdev]) (by rw [← hdev]) ?_
    · refine hadd.quiet ⟨hq.devices, ?_, hq.conns, hq.clients, hq.clientList, hw.symm,
        hq.clientLock, ?_, hq.fresh, hq.ledger⟩ ?_
      · show w2.deviceList.add w.fresh = w.deviceList.add w.fresh
        rw [hq.deviceList]
        rfl
      · show w2.nextDeviceId = dev.id + 1
        rw [hq.nextDeviceId, hdid]
        rfl
      · exact fun hgate => he.trans (h.linked.early hgate)
    · intro slots hs
      rw [← hdev] at hs
      have hs' : (if zeroed = true then some [] else none) = some slots := hs
      split at hs'
      · exact (Option.some.inj hs').symm
      · cases hs'
  | false =>
    rw [if_neg Bool.false_ne_true, meets_modify]
    refine ((h.bumpId (Nat.le_succ_of_le hid)).bumpFresh).quiet ⟨?_, hq.deviceList, hq.conns,
      hq.clients, hq.clientList, hq.deviceLock, hq.clientLock, hq.nextDeviceId, hq.fresh,
      hq.ledger⟩ ?_
    · show update w2.devices w.fresh none = w.devices
      rw [hq.devices]
      show update (update w.devices w.fresh _) w.fresh none = w.devices
      rw [update_idem, ← hnew, update_eq_self]
    · exact fun hgate => he.trans (h.linked.early hgate)

/-! ## Packets -/

theorem Scope.notRetiring (hr : v.retiring = none) : { v with retiring := none } = v := by
  cases v
  cases hr
  rfl

theorem Inv.unlisted_of_init (h : Inv env v w) (hconn : v.conn = none) (hd : w.devices d = some dev)
    (hinit : dev.state = .init) : v.gate → ∀ x, ¬ w.Lists d x := by
  intro hgate x hl
  refine h.ready_of_lists hgate ?_ hd hl hinit
  rw [hconn]
  exact Option.some_ne_none x

theorem preflightWorkerDeviceAdd_spec (h : Inv env v w) (hv : Free v) (hE : E .overrun)
    (id usbdev : Nat) :
    Meets (preflightWorkerDeviceAdd env id usbdev) w (fun _ w' => Inv env v w') E := by
  rw [preflightWorkerDeviceAdd, meets_bind, meets_get, meets_bind, meets_modify]
  split
  · exact h.asked
  · exact clientDeviceAdd_spec h.asked hv.deviceLock hv.clientLock hE id usbdev

theorem Inv.activate (h : Inv env v w) (hv : Free v) (hd : w.devices d = some dev)
    (hinit : dev.state = .init) {dev' : Device} (hid : dev'.id = dev.id)
    (hstate : dev'.state = .active) (hready : dev'.ready = true)
    (hconns : dev'.connections = some Collection.init) : Inv env v (w.setDev d dev') := by
  refine h.setDev hd hid ?_ ?_ ?_ ?_ ?_
  · rw [hready, hstate, hconns]
    exact ⟨⟨nofun, nofun⟩, fun _ => rfl⟩
  · intro slots hs
    rw [hconns] at hs
    cases hs
    exact ⟨List.nodup_nil, nofun⟩
  · exact fun hgate x hl => absurd hl (h.unlisted_of_init hv.conn hd hinit hgate x)
  · intro _ hi
    rw [hstate] at hi
    cases hi
  · intro hi
    rw [hstate] at hi
    cases hi

/-- **`device_version_input`.** -/
theorem deviceVersionInput_spec (h : Inv env v w) (hv : Free v) (hE : E .overrun)
    (hd : w.devices d = some dev) (major : Nat) :
    Meets (deviceVersionInput env d major) w (fun _ w' => Inv env v w') E := by
  have hw : w.deviceLock = false := h.deviceLock.trans hv.deviceLock
  rw [deviceVersionInput, meets_bind, meets_getDev hd]
  by_cases hinit : dev.state = .init
  · rw [if_neg (not_not_intro hinit)]
    by_cases hunknown : major ≠ 2 ∧ major ≠ 1
    · rw [if_pos hunknown, meets_bind, meets_lockDevices hw, meets_bind, meets_modify, meets_bind,
        meets_unlockDevices, meets_modify]
      have hdrop := h.dropDevice d (h.unlisted_of_init hv.conn hd hinit) ?_
      · rw [Scope.notRetiring hv.retiring] at hdrop
        refine hdrop.quiet ?_ h.linked.early
        exact ⟨rfl, rfl, rfl, rfl, rfl, hw.symm, rfl, rfl, rfl, rfl⟩
      · intro x hx
        rw [hv.retiring] at hx
        cases hx
    · rw [if_neg hunknown, meets_bind, meets_modify]
      have h1 := h.touchDev hd (show ({ dev with version := major } : Device).id = dev.id from rfl)
        rfl rfl rfl
      have hd1 : (w.setDev d { dev with version := major }).devices d =
          some { dev with version := major } := update_self _ _ _
      have hend : ∀ w2, Quiet (w.setDev d { dev with version := major }) w2 → Inv env v w2 →
          Meets (do
            modify fun w => w.setDev d
              { dev with
                version := major, state := .active, connections := some Collection.init
                ready := true }
            preflightWorkerDeviceAdd env dev.id dev.usbdev) w2 (fun _ w' => Inv env v w') E := by
        intro w2 hq h2
        have hd2 : w2.devices d = some { dev with version := major } := by
          rw [hq.devices]
          exact hd1
        rw [meets_bind, meets_modify]
        have hid : ({ dev with
            version := major, state := .active, connections := some Collection.init
            ready := true } : Device).id = dev.id := rfl
        have h3 := h2.activate hv hd2 hinit hid rfl rfl rfl
        exact preflightWorkerDeviceAdd_spec h3 hv hE _ _
      by_cases hsecond : 2 ≤ major
      · rw [if_pos hsecond]
        refine (sendPacket_spec hd1 .setup .none [7]).bind ?_
        rintro _ w2 ⟨hq, he⟩
        exact hend w2 hq (h1.quiet hq fun hgate => he.trans (h1.linked.early hgate))
      · rw [if_neg hsecond]
        exact hend _ (Quiet.refl _) h1
  · rw [if_pos hinit]
    exact h

/-! ## `device_remove` -/

/-- A client that has been told that it has a connection. -/
def Midway (w : World) (id : Nat) : Prop :=
  ∃ k cl, w.clients k = some cl ∧ cl.state = .connecting2 ∧ cl.connectDevice = id

/-- The turns of the loop of `device_remove`: some connections are gone, and no client has got as
far as `CLIENT_CONNECTING2` since. -/
structure Retiring (env : Outside) (v : Scope) (w : World) (d : Ptr) (dev : Device) (cs : List Ptr)
    (w' : World) : Prop where
  inv : Inv env v w'
  devAt : ∃ col, w'.devices d = some { dev with connections := col }
  deviceList : w'.deviceList = w.deviceList
  left : ∀ x, w'.Lists d x → x ∈ cs
  midway : ∀ k cl, w'.clients k = some cl → cl.state = .connecting2 → w.clients k = some cl

theorem Retiring.turn {cs : List Ptr} (h : Retiring env v w d dev (c :: cs) w')
    (hconn : v.conn = none) (hclient : v.client = none) (hclock : v.clientLock = false)
    (hcalls : Calls env v E) (hl : w'.Lists d c) (hlock : Midway w dev.id → E .relock) :
    Meets (connectionTeardown env c) w' (fun _ w'' => Retiring env v w d dev cs w'') E := by
  obtain ⟨col, hd⟩ := h.devAt
  obtain ⟨conn, slots, k, cl, hdev, hholds, hid, hm⟩ := h.inv.hold hconn hclient hclock hd hl
  have hbare : (v.holding c k).bare = v := Scope.bare_eq hconn hclient
  refine (hholds.tornDown ⟨hcalls.memory, hcalls.overrun, hcalls.uninitialised⟩ hm.tearable hid
    ?_).post ?_
  · intro hs _
    exact hlock ⟨k, cl, h.midway k cl hholds.clientAt hs, hs, hid⟩
  · rintro _ w'' htorn
    have hinv := htorn.inv
    have hscope : ({ v.holding c k with conn := none, client := none } : Scope) = v := hbare
    rw [hscope] at hinv
    refine ⟨hinv, ?_, htorn.deviceList.trans h.deviceList, ?_, ?_⟩
    · rw [htorn.devices, hdev, update_self]
      exact ⟨_, rfl⟩
    · rintro x ⟨dev', slots', hd', hs', hx⟩
      rw [htorn.devices, hdev, update_self] at hd'
      cases hd'
      cases hs'
      have hnodup := h.inv.shape.slotsNodup d _ slots hd hholds.slotsAt
      obtain ⟨hne, hold⟩ := (Collection.mem_remove hnodup).mp hx
      have hin := h.left x ⟨_, slots, hd, hholds.slotsAt, hold⟩
      exact (List.mem_cons.mp hin).resolve_left hne
    · intro x clx hx hs
      by_cases hxk : x = k
      · subst hxk
        exact absurd hs (htorn.calm clx hx)
      · rw [htorn.others x hxk] at hx
        exact h.midway x clx hx hs

theorem retireDevice_spec (h : Inv env v w) (hconn : v.conn = none) (hclient : v.client = none)
    (hclock : v.clientLock = false) (hr : v.retiring = some d) (hcalls : Calls env v E) (hd : w.devices d = some dev)
    (hundead : dev.state ≠ .dead) (hlock : dev.state = .active → Midway w dev.id → E .relock) :
    Meets (retireDevice env d) w (fun _ w' => Inv env v w' ∧ w'.deviceList = w.deviceList ∧
      (v.gate → ∀ x, ¬ w'.Lists d x)) E := by
  rw [retireDevice, meets_bind, meets_getDev hd]
  by_cases hactive : dev.state = .active
  · rw [if_pos hactive, meets_bind, meets_modify]
    have hready := h.shape.ready d dev hd
    have hnotinit : dev.state ≠ .init := by
      rw [hactive]
      rintro ⟨⟩
    have hdead : Inv env v (w.setDev d { dev with state := .dead }) := by
      refine h.setDev hd (show ({ dev with state := .dead } : Device).id = dev.id from rfl) ?_ ?_ ?_ ?_
        ?_
      · refine ⟨⟨fun hr => absurd (hready.1.mp hr) hnotinit, by simp⟩, hready.2⟩
      · exact fun slots hs => ⟨h.shape.slotsNodup d dev slots hd hs,
          fun x hx => ⟨dev, slots, hd, hs, hx⟩⟩
      · rintro _ x ⟨dev', slots, hd', hs, hx⟩
        rw [hd] at hd'
        cases hd'
        exact ⟨_, slots, update_self _ _ _, hs, hx⟩
      · intro _ hi
        cases hi
      · exact fun _ => .inr hr
    have hd1 : (w.setDev d { dev with state := .dead }).devices d =
        some { dev with state := .dead } := update_self _ _ _
    rw [meets_bind]
    refine Meets.post (forEachConn_spec (P := Retiring env v w d { dev with state := .dead })
      ?_ ?_ ?_ ?_ hcalls.uninitialised hdead hd1 (fun _ => by simp) ?_) ?_
    · intro cs w1 h1
      obtain ⟨col, hd2⟩ := h1.devAt
      exact ⟨h1.inv, _, hd2, fun _ => by simp⟩
    · intro cs w1 w2 h1 hq h2
      refine ⟨h2, ?_, hq.deviceList.trans h1.deviceList, ?_, ?_⟩
      · rw [hq.devices]
        exact h1.devAt
      · exact fun x hx => h1.left x (hq.lists.mp hx)
      · intro x clx hx
        rw [hq.clients] at hx
        exact h1.midway x clx hx
    · intro c cs w1 h1 hno
      refine { h1 with left := ?_ }
      intro x hx
      refine (List.mem_cons.mp (h1.left x hx)).resolve_left ?_
      rintro rfl
      exact hno hx
    · intro c cs w1 h1 hl
      exact h1.turn hconn hclient hclock hcalls hl (hlock hactive)
    · intro slots hs
      refine ⟨hdead, ⟨_, hd1⟩, rfl, ?_, fun _ _ hx _ => hx⟩
      rintro x ⟨dev', slots', hd', hs', hx⟩
      rw [hd1] at hd'
      cases hd'
      rw [hs] at hs'
      cases hs'
      exact hx
    · rintro _ w1 h1
      obtain ⟨col, hd2⟩ := h1.devAt
      have hnone : ∀ x, ¬ w1.Lists d x := by
        intro x hx
        cases h1.left x hx
      refine (clientDeviceRemove_spec h1.inv hclock hcalls.overrun dev.id).bind ?_
      rintro _ w2 ⟨h2, hsame⟩
      have hd3 : w2.devices d = some { dev with state := .dead, connections := col } := by
        rw [hsame.devices]
        exact hd2
      have hnone2 : ∀ x, ¬ w2.Lists d x := by
        intro x hx
        refine hnone x ?_
        rw [World.Lists, ← hsame.devices]
        exact hx
      rw [meets_bind, meets_getDev hd3, meets_modify]
      refine ⟨?_, hsame.deviceList.trans h1.deviceList, ?_⟩
      · refine h2.setDev hd3 rfl ?_ ?_ ?_ ?_ ?_
        · refine ⟨⟨fun hr => absurd (hready.1.mp hr) hnotinit, by simp⟩, fun _ => rfl⟩
        · intro slots hs
          cases hs
          exact ⟨List.nodup_nil, by simp⟩
        · exact fun _ x hx => absurd hx (hnone2 x)
        · intro _ hi
          cases hi
        · exact fun _ => .inr hr
      · rintro _ x ⟨dev', slots, hd', hs, hx⟩
        rw [setDev_devices, if_pos rfl] at hd'
        cases hd'
        cases hs
        cases hx
  · rw [if_neg hactive]
    refine ⟨h, rfl, h.unlisted_of_init hconn hd ?_⟩
    cases hstate : dev.state with
    | init => rfl
    | active => exact absurd hstate hactive
    | dead => exact absurd hstate hundead

/-- The device at a place on the bus. -/
def World.deviceFor (w : World) (usbdev : Nat) : Option Ptr :=
  w.deviceList.find? w.devices fun dev => dev.usbdev = usbdev

/-- The device that goes is active, and a client of it has not got its result yet. -/
def RemovesMidway (w : World) (usbdev : Nat) : Prop :=
  ∃ d dev, w.deviceFor usbdev = some d ∧ w.devices d = some dev ∧ dev.state = .active ∧
    Midway w dev.id

/-- **`device_remove`.** -/
theorem deviceRemove_spec (h : Inv env v w) (hv : Free v) (hcalls : Calls env v E) {usbdev : Nat}
    (hlock : RemovesMidway w usbdev → E .relock) :
    Meets (deviceRemove env usbdev) w (fun _ w' => Inv env v w') E := by
  have hw : w.deviceLock = false := h.deviceLock.trans hv.deviceLock
  have h1 := h.lockDevices true
  rw [deviceRemove, meets_bind, meets_lockDevices hw, meets_bind, meets_get, meets_bind,
    meets_search h1.devices_live]
  have hfor : w.deviceList.elems.find? (fun q => (w.devices q).any fun dev =>
      decide (dev.usbdev = usbdev)) = w.deviceFor usbdev := rfl
  dsimp only
  rw [hfor]
  cases hfind : w.deviceFor usbdev with
  | none => exact h1.unlockDevices hv.deviceLock
  | some d =>
    obtain ⟨-, dev, hd, -⟩ := find?_any hfind
    have hundead : dev.state ≠ .dead := by
      intro hdead
      have hr := h.linked.undead d dev hd hdead
      rw [hv.retiring] at hr
      cases hr
    show Meets (retireDevice env d >>= _) _ _ E
    refine (retireDevice_spec (h1.retire hv.retiring (some d)) hv.conn hv.client hv.clientLock rfl
      ⟨hcalls.memory, hcalls.overrun, hcalls.uninitialised⟩ hd hundead ?_).bind ?_
    · intro hactive hmid
      exact hlock ⟨d, dev, hfind, hd, hactive, hmid⟩
    · rintro _ w2 ⟨h2, hlist, hno⟩
      rw [meets_bind, meets_modify, meets_bind, meets_unlockDevices, meets_modify]
      have hdrop := h2.dropDevice d hno fun x hx => (Option.some.inj hx).symm
      have hlocked : Inv env { v with deviceLock := true } (w2.dropDevice d) := by
        rw [← Scope.notRetiring hv.retiring]
        exact hdrop
      exact hlocked.unlockDevices hv.deviceLock

/-! ## `device_data_input` -/

/-- The segment of a packet. -/
def Packet.segment : Packet → Option (Tcphdr × List UInt8)
  | .tcp th payload => some (th, payload.val)
  | _ => none

/-- The device of a segment is active. -/
structure Delivers (w : World) (usbdev : Nat) (d : Ptr) : Prop where
  found : w.deviceFor usbdev = some d
  active : ∃ dev, w.devices d = some dev ∧ dev.state = .active

/-- A segment for no connection, and the RST cannot be sent. -/
def StrayRefused (env : Outside) (w : World) (usbdev : Nat) (th : Tcphdr) : Prop :=
  ∃ d, Delivers w usbdev d ∧ w.connFor d th = none ∧ th.flags &&& thRst = 0 ∧
    env.usbSend w.tick = false

/-- A segment with more data than there is room for. -/
def Overflows (w : World) (usbdev : Nat) (th : Tcphdr) (payload : List UInt8) : Prop :=
  ∃ d c conn, Delivers w usbdev d ∧ w.connFor d th = some c ∧ w.conns c = some conn ∧
    conn.mux.state = .connected ∧ th.flags = thAck ∧
    conn.mux.ibSize + BitVec.ofNat 32 payload.length > conn.mux.ibCapacity

/-- A connection is there, and its client cannot be told. -/
def NotifyRefused (env : Outside) (w : World) (usbdev : Nat) (th : Tcphdr) : Prop :=
  ∃ d c conn k cl, Delivers w usbdev d ∧ w.connFor d th = some c ∧ w.conns c = some conn ∧
    conn.client = some k ∧ w.clients k = some cl ∧ conn.mux.state = .connecting ∧
    th.flags = thSyn ||| thAck ∧ env.usbSend w.tick = true ∧ Refused env cl (w.tick + 2)

/-- **`device_data_input`.** -/
theorem deviceDataInput_spec (h : Inv env v w) (hv : Free v) (hcalls : Calls env v E) {usbdev : Nat}
    {rxSeq : U16} {packet : Packet}
    (hstray : ∀ th payload, packet.segment = some (th, payload) → StrayRefused env w usbdev th →
      E .connNull)
    (hover : ∀ th payload, packet.segment = some (th, payload) → Overflows w usbdev th payload →
      E .connFreed)
    (hrefused : ∀ th payload, packet.segment = some (th, payload) → NotifyRefused env w usbdev th →
      E .connFreed) :
    Meets (deviceDataInput env usbdev rxSeq packet) w (fun _ w' => Inv env v w' ∧
      ∀ th payload d, packet.segment = some (th, payload) → w.deviceFor usbdev = some d →
        ∀ x, w.connFor d th ≠ some x → w'.conns x = w.conns x) E := by
  have hw : w.deviceLock = false := h.deviceLock.trans hv.deviceLock
  have hself : ({ ({ w with deviceLock := true } : World) with deviceLock := false } : World) = w := by
    cases w
    cases hw
    rfl
  rw [deviceDataInput, meets_bind, meets_lockDevices hw, meets_bind, meets_get, meets_bind,
    meets_search (h.lockDevices true).devices_live, meets_bind, meets_unlockDevices, hself]
  have hfor : w.deviceList.elems.find? (fun q => (w.devices q).any fun dev =>
      decide (dev.usbdev = usbdev)) = w.deviceFor usbdev := rfl
  dsimp only
  rw [hfor]
  cases hfind : w.deviceFor usbdev with
  | none => exact ⟨h, by simp⟩
  | some d =>
    obtain ⟨-, dev, hd, -⟩ := find?_any hfind
    show Meets (dispatch env d rxSeq packet) w _ E
    rw [dispatch.eq_def, meets_bind, meets_getDev hd, meets_bind, meets_modify]
    generalize hw1 : (if 2 ≤ dev.version then
      { w with seqs := update w.seqs d (rxSeq, (w.seqs d).2) } else w) = w1
    have hq : Quiet w w1 ∧ w1.early = w.early ∧ w1.tick = w.tick := by
      rw [← hw1]
      split
      · exact ⟨⟨rfl, rfl, rfl, rfl, rfl, rfl, rfl, rfl, rfl, rfl⟩, rfl, rfl⟩
      · exact ⟨Quiet.refl w, rfl, rfl⟩
    obtain ⟨hq, he, htick⟩ := hq
    have h1 := h.quiet hq fun hgate => he.trans (h.linked.early hgate)
    have hd1 : w1.devices d = some dev := by
      rw [hq.devices]
      exact hd
    have hfor1 : ∀ th, w1.connFor d th = w.connFor d th := by
      intro th
      rw [World.connFor, World.connFor, hq.devices, hq.conns]
    cases packet with
    | version major =>
      refine (deviceVersionInput_spec h1 hv hcalls.overrun hd1 major).post ?_
      exact fun _ w' hw' => ⟨hw', by rintro _ _ _ ⟨⟩⟩
    | other => exact ⟨h1, by rintro _ _ _ ⟨⟩⟩
    | tcp th payload =>
      have hact : dev.state = .active → Delivers w usbdev d :=
        fun hactive => ⟨hfind, dev, hd, hactive⟩
      refine (deviceTcpInput_spec h1 hv.conn hv.client hv.deviceLock hv.clientLock hcalls hd1
        ?_ ?_ ?_).post ?_
      · intro hactive hnone hrst husb
        rw [hfor1] at hnone
        rw [htick] at husb
        exact hstray th payload.val rfl ⟨d, hact hactive, hnone, hrst, husb⟩
      · intro c conn k cl hactive hsome hc hclient hk hs hflags husb hno
        rw [hfor1] at hsome
        rw [htick] at husb hno
        rw [hq.conns] at hc
        rw [hq.clients] at hk
        exact hrefused th payload.val rfl
          ⟨d, c, conn, k, cl, hact hactive, hsome, hc, hclient, hk, hs, hflags, husb, hno⟩
      · intro c conn hactive hsome hc hs hflags hlong
        rw [hfor1] at hsome
        rw [hq.conns] at hc
        exact hover th payload.val rfl
          ⟨d, c, conn, hact hactive, hsome, hc, hs, hflags, hlong⟩
      · rintro _ w' ⟨hw', haside⟩
        refine ⟨hw', ?_⟩
        intro th' payload' d' hseg hd' x hx
        cases hseg
        cases hd'
        rw [haside.conns x (by rw [hfor1]; exact hx), hq.conns]

/-! ## `poll` -/

theorem pollSources_spec (h : Inv env v w) (hv : Free v) (hE : ¬ v.gate → E .uninitialised) :
    Meets pollSources w (fun _ w' => Inv env v w') E := by
  have hw : w.deviceLock = false := h.deviceLock.trans hv.deviceLock
  have hcw : w.clientLock = false := h.clientLock.trans hv.clientLock
  rw [pollSources, meets_bind, meets_lockDevices hw, meets_bind, meets_get]
  refine (forDevices_spec (v := { v with deviceLock := true }) (R := Quiet) (fun _ _ _ => Quiet.trans)
    (fun _ _ hq => hq) (fun _ _ => Quiet.kept) hE ?_ (h.lockDevices true)).bind ?_
  · intro d c w1 dev h1 hd hl
    obtain ⟨conn, hconn, -⟩ := h1.shape.connLive d c hl
    rw [meets_bind, meets_getConn hconn]
    exact ⟨h1, Quiet.refl w1⟩
  · rintro _ w1 ⟨h1, hq⟩
    have h2 := h1.unlockDevices hv.deviceLock
    have hcw2 : ({ w1 with deviceLock := false } : World).clientLock = false :=
      hq.clientLock.trans hcw
    rw [meets_bind, meets_unlockDevices, meets_bind, meets_lockClients hcw2, meets_bind]
    refine Meets.post (Q := fun _ w' =>
      Inv env { v with clientLock := true } w' ∧ w'.clientList = w.clientList)
      (Meets.forM ?_ ⟨h2.lockClients true, hq.clientList⟩) ?_
    · rintro k hmem t ⟨ht, hlist⟩
      obtain ⟨cl, hk⟩ : ∃ cl, t.clients k = some cl := by
        have hmem' : k ∈ t.clientList.elems := by
          rw [hlist]
          exact hmem
        exact Option.isSome_iff_exists.mp ((ht.shape.cliLive k).mp hmem')
      rw [meets_bind, meets_getClient hk]
      exact ⟨ht, hlist⟩
    · exact fun _ w3 h3 => h3.1.unlockClients hv.clientLock

end IDeviceStack.Usbmuxd.Daemon
