/-
# `Usbmuxd.Collection` — the collections of `utils.c`

A collection is an array of pointers with holes: `collection_add` takes the first
hole, `collection_remove` leaves one, and `FOREACH` passes over them.  A pointer is
the number of the `malloc` that gave it, so no two objects ever share one.
-/
import Mathlib.Data.List.Basic

namespace IDeviceStack.Usbmuxd

abbrev Ptr := Nat

abbrev Collection := List (Option Ptr)

def capacityStep : Nat := 8

namespace Collection

/-- `collection_init`. -/
def init : Collection := List.replicate capacityStep none

/-- `collection_add`. -/
def add (p : Ptr) : Collection → Collection
  | [] => some p :: List.replicate (capacityStep - 1) none
  | none :: col => some p :: col
  | some q :: col => some q :: add p col

/-- `collection_remove`; an element that is not there is only logged. -/
def remove (p : Ptr) : Collection → Collection
  | [] => []
  | slot :: col => if slot = some p then none :: col else slot :: remove p col

/-- `collection_count`. -/
def count (col : Collection) : Nat := col.countP Option.isSome

/-- The elements, in the order in which `FOREACH` visits them. -/
def elems (col : Collection) : List Ptr := col.filterMap id

/-- The first element whose object, in the heap at hand, satisfies `p`. -/
def find? {α : Type} (heap : Ptr → Option α) (p : α → Bool) (col : Collection) : Option Ptr :=
  col.elems.find? fun q => (heap q).any p

variable {p : Ptr} {col : Collection}

@[simp]
theorem mem_elems : p ∈ col.elems ↔ some p ∈ col := by
  simp [elems]

@[simp]
theorem elems_init : init.elems = [] := rfl

theorem elems_cons_none (col : Collection) : elems (none :: col) = col.elems := rfl

theorem elems_cons_some (p : Ptr) (col : Collection) : elems (some p :: col) = p :: col.elems := rfl

theorem mem_add {q : Ptr} : q ∈ (add p col).elems ↔ q = p ∨ q ∈ col.elems := by
  induction col with
  | nil =>
    rw [add, elems_cons_some, List.mem_cons]
    exact Iff.rfl
  | cons slot col ih =>
    cases slot with
    | none => rw [add, elems_cons_some, elems_cons_none, List.mem_cons]
    | some r =>
      rw [add, elems_cons_some, elems_cons_some, List.mem_cons, List.mem_cons, ih]
      exact or_left_comm

theorem nodup_add (h : col.elems.Nodup) (hp : p ∉ col.elems) : (add p col).elems.Nodup := by
  induction col with
  | nil =>
    rw [add, elems_cons_some]
    exact List.nodup_cons.mpr ⟨List.not_mem_nil, List.nodup_nil⟩
  | cons slot col ih =>
    cases slot with
    | none => exact List.nodup_cons.mpr ⟨hp, h⟩
    | some r =>
      rw [elems_cons_some, List.nodup_cons] at h
      rw [elems_cons_some, List.mem_cons, not_or] at hp
      rw [add, elems_cons_some, List.nodup_cons, mem_add, not_or]
      exact ⟨⟨fun hr => hp.1 hr.symm, h.1⟩, ih h.2 hp.2⟩

theorem elems_remove : (remove p col).elems = col.elems.erase p := by
  induction col with
  | nil => rfl
  | cons slot col ih =>
    cases slot with
    | none =>
      rw [remove, if_neg (by nofun), elems_cons_none, elems_cons_none, ih]
    | some r =>
      by_cases hr : r = p
      · rw [remove, if_pos (by rw [hr]), elems_cons_none, elems_cons_some, hr, List.erase_cons_head]
      · rw [remove, if_neg (fun h => hr (Option.some.inj h)), elems_cons_some, elems_cons_some,
          ih, List.erase_cons_tail (by simpa using hr)]

theorem mem_remove {q : Ptr} (h : col.elems.Nodup) :
    q ∈ (remove p col).elems ↔ q ≠ p ∧ q ∈ col.elems := by
  rw [elems_remove, h.mem_erase_iff]

theorem nodup_remove (h : col.elems.Nodup) : (remove p col).elems.Nodup := by
  rw [elems_remove]
  exact h.erase p

end Collection

end IDeviceStack.Usbmuxd
