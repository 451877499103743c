/-
# `Lib.Dll` — segments of doubly linked lists

A memory is read through one function `m`, which gives the `(next, prev)` links
of a cell, or `none` where there is no cell.  Cells are named by `κ`; links are
values of `ρ`, of which some are cells (`cell : κ → ρ`) and others are not: the
null pointer, a list header, the dangling pointer of a freed cell.

`Seg cell m b e xs` says that the cells `xs` are linked in this order, that the
first one points back to `b` and that the last one points on to `e`.  Where a
list begins and ends is thus left to the user, and a list can be cut at any
place: `seg_append` is the one rule the operations on a list are derived from.
-/
import Mathlib.Data.List.Nodup
import Mathlib.Data.List.Perm.Subperm
import Mathlib.Data.List.Range

namespace IDeviceStack.Lib

variable {κ ρ : Type*} {cell : κ → ρ}

/-- The first cell of a segment, or what follows an empty one. -/
def headRef (cell : κ → ρ) : List κ → ρ → ρ
  | [], e => e
  | x :: _, _ => cell x

/-- The last cell of a segment, or what precedes an empty one. -/
def lastRef (cell : κ → ρ) : List κ → ρ → ρ
  | [], b => b
  | x :: xs, _ => lastRef cell xs (cell x)

@[simp] theorem headRef_nil (e : ρ) : headRef cell [] e = e := rfl
@[simp] theorem headRef_cons (x : κ) (xs : List κ) (e : ρ) :
    headRef cell (x :: xs) e = cell x := rfl
@[simp] theorem lastRef_nil (b : ρ) : lastRef cell [] b = b := rfl
@[simp] theorem lastRef_cons (x : κ) (xs : List κ) (b : ρ) :
    lastRef cell (x :: xs) b = lastRef cell xs (cell x) := rfl

theorem headRef_append (xs ys : List κ) (e : ρ) :
    headRef cell (xs ++ ys) e = headRef cell xs (headRef cell ys e) := by
  cases xs <;> rfl

@[simp] theorem lastRef_append (xs ys : List κ) (b : ρ) :
    lastRef cell (xs ++ ys) b = lastRef cell ys (lastRef cell xs b) := by
  induction xs generalizing b with
  | nil => rfl
  | cons x xs ih => exact ih (cell x)

/-- The cells `xs` are linked in this order, between `b` and `e`. -/
def Seg (cell : κ → ρ) (m : κ → Option (ρ × ρ)) : ρ → ρ → List κ → Prop
  | _, _, [] => True
  | b, e, x :: xs => m x = some (headRef cell xs e, b) ∧ Seg cell m (cell x) e xs

variable {m m' : κ → Option (ρ × ρ)} {b e : ρ}

@[simp] theorem seg_nil : Seg cell m b e [] := trivial

theorem seg_cons {x : κ} {xs : List κ} :
    Seg cell m b e (x :: xs) ↔ m x = some (headRef cell xs e, b) ∧ Seg cell m (cell x) e xs :=
  Iff.rfl

/-- A list can be cut anywhere: the left part ends at the head of the right one, and the
right part begins at the end of the left one. -/
theorem seg_append {xs ys : List κ} :
    Seg cell m b e (xs ++ ys) ↔
      Seg cell m b (headRef cell ys e) xs ∧ Seg cell m (lastRef cell xs b) e ys := by
  induction xs generalizing b with
  | nil => simp
  | cons x xs ih =>
    rw [List.cons_append, seg_cons, seg_cons, ih, headRef_append, lastRef_cons, and_assoc]

/-- A segment depends on the links of its own cells only. -/
theorem Seg.congr {xs : List κ} (h : Seg cell m b e xs) (heq : ∀ x ∈ xs, m' x = m x) :
    Seg cell m' b e xs := by
  induction xs generalizing b with
  | nil => trivial
  | cons x xs ih =>
    exact ⟨(heq x List.mem_cons_self).trans h.1,
      ih h.2 fun y hy => heq y (List.mem_cons_of_mem x hy)⟩

/-! ## Redirecting links -/

section Link

variable [DecidableEq ρ]

/-- The links after `r->next = v`; nothing changes if `r` is not a cell. -/
def linkNext (cell : κ → ρ) (m : κ → Option (ρ × ρ)) (r v : ρ) : κ → Option (ρ × ρ) :=
  fun x => if cell x = r then (m x).map fun l => (v, l.2) else m x

/-- The links after `r->prev = v`. -/
def linkPrev (cell : κ → ρ) (m : κ → Option (ρ × ρ)) (r v : ρ) : κ → Option (ρ × ρ) :=
  fun x => if cell x = r then (m x).map fun l => (l.1, v) else m x

/-- A segment does not see a link redirected outside it. -/
theorem Seg.linkNext_out {xs : List κ} {r : ρ} (h : Seg cell m b e xs) (hr : ∀ x ∈ xs, cell x ≠ r)
    (v : ρ) : Seg cell (linkNext cell m r v) b e xs :=
  h.congr fun x hx => if_neg (hr x hx)

theorem Seg.linkPrev_out {xs : List κ} {r : ρ} (h : Seg cell m b e xs) (hr : ∀ x ∈ xs, cell x ≠ r)
    (v : ρ) : Seg cell (linkPrev cell m r v) b e xs :=
  h.congr fun x hx => if_neg (hr x hx)

/-- Redirecting the last cell's forward link moves the end of the segment. -/
theorem Seg.linkNext_last {xs : List κ} (hinj : Function.Injective cell) (h : Seg cell m b e xs)
    (hnd : xs.Nodup) (v : ρ) : Seg cell (linkNext cell m (lastRef cell xs b) v) b v xs := by
  rcases List.eq_nil_or_concat xs with rfl | ⟨ys, y, rfl⟩
  · trivial
  · rw [List.concat_eq_append] at h hnd ⊢
    obtain ⟨hys, hy⟩ := seg_append.mp h
    rw [lastRef_append, lastRef_cons, lastRef_nil]
    refine seg_append.mpr ⟨hys.linkNext_out ?_ v, ?_, trivial⟩
    · intro x hx hxy
      exact (List.nodup_append.mp hnd).2.2 x hx y List.mem_cons_self (hinj hxy)
    · rw [linkNext, if_pos rfl, hy.1]
      rfl

/-- Redirecting the first cell's back link moves the beginning of the segment. -/
theorem Seg.linkPrev_head {xs : List κ} (hinj : Function.Injective cell) (h : Seg cell m b e xs)
    (hnd : xs.Nodup) (v : ρ) : Seg cell (linkPrev cell m (headRef cell xs e) v) v e xs := by
  cases xs with
  | nil => trivial
  | cons x xs =>
    rw [headRef_cons]
    refine ⟨?_, h.2.linkPrev_out ?_ v⟩
    · rw [linkPrev, if_pos rfl, h.1]
      rfl
    · rintro y hy hyx
      exact (List.nodup_cons.mp hnd).1 (hinj hyx ▸ hy)

end Link

/-- Addresses below a bound, each once, are no more than the bound. -/
theorem length_le_of_nodup_lt {xs : List Nat} {n : Nat} (hnd : xs.Nodup) (hlt : ∀ x ∈ xs, x < n) :
    xs.length ≤ n := by
  have hsub : xs ⊆ List.range n := fun x hx => List.mem_range.mpr (hlt x hx)
  simpa using (List.subperm_of_subset hnd hsub).length_le

end IDeviceStack.Lib
