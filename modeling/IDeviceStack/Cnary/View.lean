/-
# `Cnary.View` — reading and writing cells

The operations of `libcnary` write a few pointer fields each.  Here a cell is
taken apart into views (its links, its child list, its data, its parent and its
counter), the writes are made total (`putNext`, `putPrev`, ...), and each view
is given after each write.  Nothing later looks inside a cell again.

A write through a pointer is the total write as soon as the pointer is `Valid`.
On the links, writes are `linkNext` and `linkPrev` of `IDeviceStack.Lib.Dll`.
-/
import IDeviceStack.Cnary.Node

namespace IDeviceStack.Cnary

open Lib

variable {α : Type}

namespace Heap

/-! ## What there is to know about a cell -/

/-- The `(next, prev)` links of a cell. -/
def links (h : Heap α) (a : Nat) : Option (Ref × Ref) :=
  (h.cells a).map fun n => (n.next, n.prev)

/-- The child list of a cell. -/
def list (h : Heap α) (a : Nat) : Option NodeList := (h.cells a).map Node.children

def data (h : Heap α) (a : Nat) : Option α := (h.cells a).map Node.data

def parent (h : Heap α) (a : Nat) : Option Ref := (h.cells a).map Node.parent

def count (h : Heap α) (a : Nat) : Option Nat := (h.cells a).map Node.count

/-- `r` may be dereferenced. -/
def Valid (h : Heap α) : Ref → Prop
  | .null => False
  | .node a => (h.cells a).isSome
  | .list p => (h.cells p).isSome

theorem cells_adjust (h : Heap α) (a b : Nat) (f : Node α → Node α) :
    (h.adjust a f).cells b = if b = a then (h.cells b).map f else h.cells b := rfl

variable {h : Heap α} {a : Nat}

theorem modify_eq (ha : (h.cells a).isSome) (f : Node α → Node α) :
    h.modify a f = some (h.adjust a f) := if_pos ha

@[simp] theorem isSome_adjust (h : Heap α) (a b : Nat) (f : Node α → Node α) :
    ((h.adjust a f).cells b).isSome = (h.cells b).isSome := by
  rw [cells_adjust]
  split <;> simp

theorem lt_top (ha : (h.cells a).isSome) : a < h.top := by
  by_contra hge
  rw [h.fresh a (by omega)] at ha
  cases ha

/-! ## Total writes -/

/-- `r->next = v` for a valid `r`. -/
def putNext (h : Heap α) (r v : Ref) : Heap α :=
  match r with
  | .null => h
  | .node a => h.adjust a fun n => { n with next := v }
  | .list p => h.adjust p fun n => { n with children := { n.children with beginRef := v } }

/-- `r->prev = v` for a valid `r`. -/
def putPrev (h : Heap α) (r v : Ref) : Heap α :=
  match r with
  | .null => h
  | .node a => h.adjust a fun n => { n with prev := v }
  | .list p => h.adjust p fun n => { n with children := { n.children with endRef := v } }

/-- `a->next = v; a->prev = w`. -/
def putLinks (h : Heap α) (a : Nat) (v w : Ref) : Heap α :=
  h.adjust a fun n => { n with next := v, prev := w }

/-- `list->count` after `f`. -/
def putListCount (h : Heap α) (p : Nat) (f : Nat → Nat) : Heap α :=
  h.adjust p fun n => { n with children := { n.children with count := f n.children.count } }

/-- `node->count` after `f`. -/
def putCount (h : Heap α) (p : Nat) (f : Nat → Nat) : Heap α :=
  h.adjust p fun n => { n with count := f n.count }

/-- What `adopt` writes. -/
def putParent (h : Heap α) (p a depth : Nat) : Heap α :=
  (h.adjust a fun n =>
    { n with isLeaf := true, isRoot := false, parent := .node p, depth := depth + 1 }).adjust p
      fun n => { n with isLeaf := false }

variable {r : Ref}

theorem setNext_eq (hr : h.Valid r) (v : Ref) : h.setNext r v = some (h.putNext r v) := by
  cases r with
  | null => cases hr
  | node a => exact modify_eq hr _
  | list p => exact modify_eq hr _

theorem setPrev_eq (hr : h.Valid r) (v : Ref) : h.setPrev r v = some (h.putPrev r v) := by
  cases r with
  | null => cases hr
  | node a => exact modify_eq hr _
  | list p => exact modify_eq hr _

@[simp] theorem isSome_putNext (h : Heap α) (r v : Ref) (b : Nat) :
    ((h.putNext r v).cells b).isSome = (h.cells b).isSome := by
  cases r <;> simp only [putNext, isSome_adjust]

@[simp] theorem isSome_putPrev (h : Heap α) (r v : Ref) (b : Nat) :
    ((h.putPrev r v).cells b).isSome = (h.cells b).isSome := by
  cases r <;> simp only [putPrev, isSome_adjust]

@[simp] theorem isSome_putLinks (h : Heap α) (a : Nat) (v w : Ref) (b : Nat) :
    ((h.putLinks a v w).cells b).isSome = (h.cells b).isSome := isSome_adjust ..

@[simp] theorem isSome_putListCount (h : Heap α) (p : Nat) (f : Nat → Nat) (b : Nat) :
    ((h.putListCount p f).cells b).isSome = (h.cells b).isSome := isSome_adjust ..

@[simp] theorem isSome_putParent (h : Heap α) (p a depth : Nat) (b : Nat) :
    ((h.putParent p a depth).cells b).isSome = (h.cells b).isSome := by
  simp only [putParent, isSome_adjust]

/-! Each view after each write. -/

theorem map_adjust {β : Type} {f : Node α → Node α} {g : Node α → β} (hg : ∀ n, g (f n) = g n)
    (b : Nat) : ((h.adjust a f).cells b).map g = (h.cells b).map g := by
  rw [cells_adjust]
  split
  · rw [Option.map_map]
    exact congrArg (Option.map · _) (funext hg)
  · rfl

@[simp] theorem links_putNext (h : Heap α) (r v : Ref) :
    (h.putNext r v).links = linkNext .node h.links r v := by
  funext b
  cases r with
  | null => simp [putNext, linkNext]
  | node a =>
    by_cases hab : b = a
    · subst hab
      simp only [links, putNext, cells_adjust, linkNext, if_true, Option.map_map, Function.comp_def]
    · simp [links, putNext, cells_adjust, linkNext, hab]
  | list p =>
    simp only [linkNext, reduceCtorEq, if_false]
    exact map_adjust (by intro n; rfl) b

@[simp] theorem links_putPrev (h : Heap α) (r v : Ref) :
    (h.putPrev r v).links = linkPrev .node h.links r v := by
  funext b
  cases r with
  | null => simp [putPrev, linkPrev]
  | node a =>
    by_cases hab : b = a
    · subst hab
      simp only [links, putPrev, cells_adjust, linkPrev, if_true, Option.map_map, Function.comp_def]
    · simp [links, putPrev, cells_adjust, linkPrev, hab]
  | list p =>
    simp only [linkPrev, reduceCtorEq, if_false]
    exact map_adjust (by intro n; rfl) b

theorem links_putLinks (h : Heap α) (a : Nat) (v w : Ref) (b : Nat) :
    (h.putLinks a v w).links b = if b = a then (h.links b).map (fun _ => (v, w)) else h.links b := by
  simp only [links, putLinks, cells_adjust]
  split <;> simp [Function.comp_def]

@[simp] theorem links_putListCount (h : Heap α) (p : Nat) (f : Nat → Nat) :
    (h.putListCount p f).links = h.links := funext fun b => map_adjust (by intro n; rfl) b

@[simp] theorem links_putCount (h : Heap α) (p : Nat) (f : Nat → Nat) :
    (h.putCount p f).links = h.links := funext fun b => map_adjust (by intro n; rfl) b

@[simp] theorem links_putParent (h : Heap α) (p a depth : Nat) :
    (h.putParent p a depth).links = h.links :=
  funext fun b => (map_adjust (by intro n; rfl) b).trans (map_adjust (by intro n; rfl) b)

theorem list_putNext (h : Heap α) (r v : Ref) (b : Nat) :
    (h.putNext r v).list b =
      if r = .list b then (h.list b).map fun l => { l with beginRef := v } else h.list b := by
  cases r with
  | null => simp [putNext]
  | node a =>
    simp only [reduceCtorEq, if_false]
    exact map_adjust (by intro n; rfl) b
  | list p =>
    by_cases hbp : b = p
    · subst hbp
      simp [list, putNext, cells_adjust, Function.comp_def]
    · simp [list, putNext, cells_adjust, hbp, Ne.symm hbp]

theorem list_putPrev (h : Heap α) (r v : Ref) (b : Nat) :
    (h.putPrev r v).list b =
      if r = .list b then (h.list b).map fun l => { l with endRef := v } else h.list b := by
  cases r with
  | null => simp [putPrev]
  | node a =>
    simp only [reduceCtorEq, if_false]
    exact map_adjust (by intro n; rfl) b
  | list p =>
    by_cases hbp : b = p
    · subst hbp
      simp [list, putPrev, cells_adjust, Function.comp_def]
    · simp [list, putPrev, cells_adjust, hbp, Ne.symm hbp]

@[simp] theorem list_putLinks (h : Heap α) (a : Nat) (v w : Ref) :
    (h.putLinks a v w).list = h.list := funext fun b => map_adjust (by intro n; rfl) b

theorem list_putListCount (h : Heap α) (p : Nat) (f : Nat → Nat) (b : Nat) :
    (h.putListCount p f).list b =
      if b = p then (h.list b).map fun l => { l with count := f l.count } else h.list b := by
  simp only [list, putListCount, cells_adjust]
  split <;> simp [Function.comp_def]

@[simp] theorem list_putCount (h : Heap α) (p : Nat) (f : Nat → Nat) :
    (h.putCount p f).list = h.list := funext fun b => map_adjust (by intro n; rfl) b

@[simp] theorem list_putParent (h : Heap α) (p a depth : Nat) :
    (h.putParent p a depth).list = h.list :=
  funext fun b => (map_adjust (by intro n; rfl) b).trans (map_adjust (by intro n; rfl) b)

/-- Going from `h` to `h'` changed no data, parent or counter. -/
structure Quiet (h h' : Heap α) : Prop where
  data : h'.data = h.data
  parent : h'.parent = h.parent
  count : h'.count = h.count
  top : h'.top = h.top

theorem Quiet.trans {h' h'' : Heap α} (h1 : Quiet h h') (h2 : Quiet h' h'') : Quiet h h'' :=
  ⟨h2.data.trans h1.data, h2.parent.trans h1.parent, h2.count.trans h1.count, h2.top.trans h1.top⟩

theorem quiet_adjust {f : Node α → Node α}
    (hf : ∀ n, (f n).data = n.data ∧ (f n).parent = n.parent ∧ (f n).count = n.count) :
    Quiet h (h.adjust a f) :=
  ⟨funext (map_adjust fun n => (hf n).1), funext (map_adjust fun n => (hf n).2.1),
    funext (map_adjust fun n => (hf n).2.2), rfl⟩

theorem quiet_putNext (h : Heap α) (r v : Ref) : Quiet h (h.putNext r v) := by
  cases r with
  | null => exact ⟨rfl, rfl, rfl, rfl⟩
  | node a => exact quiet_adjust fun n => ⟨rfl, rfl, rfl⟩
  | list p => exact quiet_adjust fun n => ⟨rfl, rfl, rfl⟩

theorem quiet_putPrev (h : Heap α) (r v : Ref) : Quiet h (h.putPrev r v) := by
  cases r with
  | null => exact ⟨rfl, rfl, rfl, rfl⟩
  | node a => exact quiet_adjust fun n => ⟨rfl, rfl, rfl⟩
  | list p => exact quiet_adjust fun n => ⟨rfl, rfl, rfl⟩

theorem quiet_putLinks (h : Heap α) (a : Nat) (v w : Ref) : Quiet h (h.putLinks a v w) :=
  quiet_adjust fun _ => ⟨rfl, rfl, rfl⟩

theorem quiet_putListCount (h : Heap α) (p : Nat) (f : Nat → Nat) : Quiet h (h.putListCount p f) :=
  quiet_adjust fun _ => ⟨rfl, rfl, rfl⟩

@[simp] theorem data_putCount (h : Heap α) (p : Nat) (f : Nat → Nat) :
    (h.putCount p f).data = h.data := funext fun b => map_adjust (by intro n; rfl) b

@[simp] theorem parent_putCount (h : Heap α) (p : Nat) (f : Nat → Nat) :
    (h.putCount p f).parent = h.parent := funext fun b => map_adjust (by intro n; rfl) b

theorem count_putCount (h : Heap α) (p : Nat) (f : Nat → Nat) :
    (h.putCount p f).count p = (h.count p).map f := by
  simp [count, putCount, cells_adjust, Function.comp_def]

@[simp] theorem data_putParent (h : Heap α) (p a depth : Nat) :
    (h.putParent p a depth).data = h.data :=
  funext fun b => (map_adjust (by intro n; rfl) b).trans (map_adjust (by intro n; rfl) b)

@[simp] theorem count_putParent (h : Heap α) (p a depth : Nat) :
    (h.putParent p a depth).count = h.count :=
  funext fun b => (map_adjust (by intro n; rfl) b).trans (map_adjust (by intro n; rfl) b)

theorem parent_putParent (h : Heap α) (p a depth b : Nat) :
    (h.putParent p a depth).parent b =
      if b = a then (h.parent b).map (fun _ => .node p) else h.parent b := by
  refine (map_adjust (by intro n; rfl) b).trans ?_
  rw [cells_adjust, parent]
  split <;> simp [Function.comp_def]

/-! Cells that a write does not name. -/

theorem cells_putNext {v : Ref} {b : Nat} (hn : r ≠ .node b) (hl : r ≠ .list b) :
    (h.putNext r v).cells b = h.cells b := by
  cases r with
  | null => rfl
  | node a => exact if_neg fun (hb : b = a) => hn (congrArg Ref.node hb.symm)
  | list p => exact if_neg fun (hb : b = p) => hl (congrArg Ref.list hb.symm)

theorem cells_putPrev {v : Ref} {b : Nat} (hn : r ≠ .node b) (hl : r ≠ .list b) :
    (h.putPrev r v).cells b = h.cells b := by
  cases r with
  | null => rfl
  | node a => exact if_neg fun (hb : b = a) => hn (congrArg Ref.node hb.symm)
  | list p => exact if_neg fun (hb : b = p) => hl (congrArg Ref.list hb.symm)

end Heap

end IDeviceStack.Cnary
