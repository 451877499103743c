/-
# `Usbmuxd.Ports` — which port `find_sport` finds

`find_sport` counts `next_sport` up, in 16 bits, until it comes to a port that no live
connection has.  With fewer connections than ports that happens before the counter is
back where it began, so the loop ends, and the port is a free one.

It may be 0 all the same.  No connection has port 0, so the counter stops there when it
wraps around, and 0 is what `find_sport` returns for no port.  The request is refused
although ports are free; the next one begins at 1.
-/
import IDeviceStack.Usbmuxd.Runs

namespace IDeviceStack.Usbmuxd.Daemon

open Lib

local instance lawful_u16 : LawfulBEq U16 := inferInstance

/-- The `while(1)` of `find_sport`; `none` if it goes on after `n` turns. -/
def sportLoop (used : List U16) : Nat → U16 → Option U16
  | 0, _ => none
  | n + 1, port => if port ∈ used then sportLoop used n (port + 1) else some port

/-- The source ports of the live connections in a collection. -/
def World.sports (w : World) (slots : Collection) : List U16 :=
  (slots.elems.filterMap w.conns).map fun conn => conn.mux.sport

section Search

variable {used : List U16} {i : Nat}

theorem sportLoop_first {port : U16} (hbusy : ∀ j < i, port + BitVec.ofNat 16 j ∈ used)
    (hfree : port + BitVec.ofNat 16 i ∉ used) (n : Nat) (hn : i < n) :
    sportLoop used n port = some (port + BitVec.ofNat 16 i) ∧
      nextFreePort used n port = port + BitVec.ofNat 16 i := by
  induction i generalizing port n with
  | zero =>
    obtain ⟨n, rfl⟩ : ∃ k, n = k + 1 := ⟨n - 1, by omega⟩
    rw [BitVec.add_zero] at hfree ⊢
    rw [sportLoop, nextFreePort, if_neg hfree, if_neg hfree]
    exact ⟨rfl, rfl⟩
  | succ i ih =>
    obtain ⟨n, rfl⟩ : ∃ k, n = k + 1 := ⟨n - 1, by omega⟩
    have hshift (j : Nat) : port + 1 + BitVec.ofNat 16 j = port + BitVec.ofNat 16 (j + 1) := by
      rw [BitVec.add_assoc, BitVec.add_comm 1, BitVec.ofNat_add]
      rfl
    have hport : port ∈ used := by
      have h0 := hbusy 0 (Nat.succ_pos i)
      rwa [BitVec.add_zero] at h0
    have hbusy' (j : Nat) (hj : j < i) : port + 1 + BitVec.ofNat 16 j ∈ used :=
      hshift j ▸ hbusy (j + 1) (Nat.succ_lt_succ hj)
    have hnext := ih hbusy' (by rwa [hshift i]) n (by omega)
    rw [hshift i] at hnext
    rw [sportLoop, nextFreePort, if_pos hport, if_pos hport]
    exact hnext

theorem exists_first_port (h : used.length < 65535) (port : U16) :
    ∃ i < 65536, (∀ j < i, port + BitVec.ofNat 16 j ∈ used) ∧ port + BitVec.ofNat 16 i ∉ used := by
  classical
  obtain ⟨i, hi, hfree⟩ := exists_free_port h port
  have hex : ∃ i, port + BitVec.ofNat 16 i ∉ used := ⟨i, hfree⟩
  refine ⟨Nat.find hex, Nat.lt_of_le_of_lt (Nat.find_min' hex hfree) hi, fun j hj => ?_,
    Nat.find_spec hex⟩
  exact not_not.mp (Nat.find_min hex hj)

theorem first_port_ne_zero_iff {port : U16} (hi : i < 65536)
    (hbusy : ∀ j < i, port + BitVec.ofNat 16 j ∈ used) (hfree : port + BitVec.ofNat 16 i ∉ used) :
    port + BitVec.ofNat 16 i ≠ 0 ↔ 0 ∈ used ∨ port ≠ 0 ∧ ∃ p, port ≤ p ∧ p ∉ used := by
  have hwrap (j : Nat) (hj : j < 65536) :
      (port + BitVec.ofNat 16 j).toNat = (port.toNat + j) % 65536 := by
    rw [BitVec.toNat_add, BitVec.toNat_ofNat, Nat.mod_eq_of_lt hj]
  have hport := port.isLt
  have hval := hwrap i hi
  constructor
  · intro hne
    by_cases hzero : (0 : U16) ∈ used
    · exact .inl hzero
    have hpos : (port + BitVec.ofNat 16 i).toNat ≠ 0 := fun h => hne (BitVec.eq_of_toNat_eq h)
    -- the counter has not come to 0 on the way
    have hnowrap : port.toNat ≠ 0 ∧ port.toNat + i < 65536 := by
      by_contra hno
      obtain ⟨j, hji, hj⟩ : ∃ j ≤ i, (port.toNat + j) % 65536 = 0 := by
        by_cases h0 : port.toNat = 0
        · exact ⟨0, Nat.zero_le i, by omega⟩
        · exact ⟨65536 - port.toNat, by omega, by omega⟩
      rcases Nat.lt_or_eq_of_le hji with hlt | rfl
      · have hbusy0 := hbusy j hlt
        have h0 : port + BitVec.ofNat 16 j = 0 :=
          BitVec.eq_of_toNat_eq (by rw [hwrap j (by omega), hj]; rfl)
        rw [h0] at hbusy0
        exact hzero hbusy0
      · omega
    refine .inr ⟨fun h => hnowrap.1 (by rw [h]; rfl), _, ?_, hfree⟩
    rw [BitVec.le_def, hval, Nat.mod_eq_of_lt hnowrap.2]
    omega
  · rintro (hzero | ⟨hne, p, hle, hp⟩) heq
    · rw [heq] at hfree
      exact hfree hzero
    · have hpos : port.toNat ≠ 0 := fun h => hne (BitVec.eq_of_toNat_eq h)
      have hp16 := p.isLt
      rw [BitVec.le_def] at hle
      have hpj : port + BitVec.ofNat 16 (p.toNat - port.toNat) = p :=
        BitVec.eq_of_toNat_eq (by rw [hwrap _ (by omega)]; omega)
      have hile : i ≤ p.toNat - port.toNat := by
        by_contra hlt
        exact hp (hpj ▸ hbusy _ (by omega))
      have h0 : (port + BitVec.ofNat 16 i).toNat = 0 := by
        rw [heq]
        rfl
      omega

end Search

variable {w : World} {d : Ptr} {dev : Device} {slots : Collection}

theorem connectionsOf_eq (hd : w.devices d = some dev) (hs : dev.connections = some slots) :
    connectionsOf d w = .ok (slots, { w with early := w.early || !dev.ready }) := by
  refine Meets.eq_ok ?_
  rw [connectionsOf, meets_bind, meets_getDev hd, hs]
  exact ⟨rfl, rfl⟩

theorem findSport_eq (hd : w.devices d = some dev) (hs : dev.connections = some slots)
    (hlive : ∀ c ∈ slots.elems, (w.conns c).isSome) (hfew : slots.count < 65535) :
    findSport d w = .ok (nextFreePort (w.sports slots) 65536 dev.nextSport,
      ({ w with early := w.early || !dev.ready } : World).setDev d
        { dev with nextSport := nextFreePort (w.sports slots) 65536 dev.nextSport + 1 }) := by
  rw [findSport, bind_eq_of_ok (connectionsOf_eq hd hs)]
  obtain ⟨w1, hw1⟩ : ∃ w1, w1 = ({ w with early := w.early || !dev.ready } : World) := ⟨_, rfl⟩
  have hd1 : w1.devices d = some dev := by rw [hw1]; exact hd
  have hlive1 : ∀ c ∈ slots.elems, (w1.conns c).isSome := by rw [hw1]; exact hlive
  have hsports : w.sports slots = w1.sports slots := by rw [hw1]; rfl
  have hread : ∀ q a (R : U16 → World → Prop), w1.conns q = some a →
      (Meets (getConn q >>= fun conn => pure conn.mux.sport) w1 R (fun _ => False) ↔
        R a.mux.sport w1) := by
    intro q a R hq
    rw [meets_bind, meets_getConn hq]
    exact meets_pure
  rw [← hw1, hsports, if_neg (by omega)]
  refine Meets.eq_ok ?_
  rw [meets_bind, meets_mapM hread hlive1, meets_bind, meets_getDev hd1]
  simp only [meets_bind, meets_modify, meets_pure]
  exact ⟨rfl, rfl⟩

/-- **Which port is found.**  With fewer than 65535 connections the loop comes to an end within
65536 turns, at a port that no connection has.  It is a port at all exactly if there is a free one
from `next_sport` up to 65535, and `next_sport` is not 0 itself. -/
theorem findSport_iff (hd : w.devices d = some dev) (hs : dev.connections = some slots)
    (hlive : ∀ c ∈ slots.elems, (w.conns c).isSome) (hfew : slots.count < 65535) :
    ∃ port w', findSport d w = .ok (port, w') ∧
      (∀ n ≥ 65536, sportLoop (w.sports slots) n dev.nextSport = some port) ∧
      port ∉ w.sports slots ∧
      (port ≠ 0 ↔ 0 ∈ w.sports slots ∨
        dev.nextSport ≠ 0 ∧ ∃ p, dev.nextSport ≤ p ∧ p ∉ w.sports slots) := by
  have hused : (w.sports slots).length < 65535 := by
    refine Nat.lt_of_le_of_lt ?_ hfew
    rw [World.sports, List.length_map, ← Collection.length_elems]
    exact List.length_filterMap_le _ _
  obtain ⟨i, hi, hbusy, hfree⟩ := exists_first_port hused dev.nextSport
  have hport := (sportLoop_first hbusy hfree 65536 hi).2
  refine ⟨_, _, findSport_eq hd hs hlive hfew, fun n hn => ?_, ?_, ?_⟩
  · rw [hport]
    exact (sportLoop_first hbusy hfree n (by omega)).1
  · rw [hport]
    exact hfree
  · rw [hport]
    exact first_port_ne_zero_iff hi hbusy hfree

/-- A device without connections, whose counter is at `next`. -/
def World.idleDevice (next : U16) : World :=
  { World.start with
    devices := Function.update (fun _ => none) 0
      (some ⟨1, 1, .active, 2, true, some Collection.init, true, next⟩)
    deviceList := Collection.init.add 0
    fresh := 1 }

theorem findSport_iff_idleDevice :
    ∃ port w', findSport 0 (World.idleDevice 65535) = .ok (port, w') ∧ port ≠ 0 := by
  have hd : (World.idleDevice 65535).devices 0 =
      some ⟨1, 1, .active, 2, true, some Collection.init, true, 65535⟩ := rfl
  obtain ⟨port, w', hrun, -, -, hne⟩ := findSport_iff hd rfl (by simp) (by decide)
  exact ⟨port, w', hrun, hne.mpr (.inr ⟨by decide, 65535, by decide, by simp [World.sports]⟩)⟩

/-- After 65535 requests the counter is at 0, and the next request is refused with no connection
open at all; the one after that is granted. -/
theorem findSport_at_zero :
    (findSport 0 (World.idleDevice 0)).map (·.1) = .ok 0 ∧
      (deviceStartConnect (sample (fun _ => true) (fun _ => true) []) 1 80 7
        (World.idleDevice 0)).map (·.1) = .ok resultBaddev ∧
      (findSport 0 (World.idleDevice 1)).map (·.1) = .ok 1 := by
  exact ⟨by decide +kernel, by decide +kernel, by decide +kernel⟩

end IDeviceStack.Usbmuxd.Daemon
