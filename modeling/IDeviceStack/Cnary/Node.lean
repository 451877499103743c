/-
# `Cnary.Node` — nodes and child lists in memory

The part of `libcnary` that libplist uses: `list.c`, `node_list.c` and `node.c`.

## Memory

A `Heap` maps addresses to nodes; an address that was never handed out, or whose
node has been freed, maps to nothing.  Dereferencing such an address, or `NULL`,
is undefined in C and is `none` here: a function that returns `some` has touched
only memory it may touch.  Addresses are handed out in order and never twice.
As the model stops at the first access to a freed node, a run that does not stop
cannot tell this allocator from one that reuses memory.

A `node_list_t` is allocated and freed together with the node it belongs to, so
it is part of that node's cell.  It starts with the same two pointers as a
`node_t`, and `list_init` makes use of that: the header of an empty list is its
own `end`, and the header serves as the `prev` of the first node appended.
`Ref.list p` is the header of `p`'s list used as a `node_t *`: its `next` is
`begin`, its `prev` is `end`.

Loops that follow `next` until `NULL` take as many turns as there are addresses,
plus one; a loop that needs more has come back to a node it has seen and would
not end.  Counters and positions (`unsigned int`, `int`) are natural numbers: a
list of `2 ^ 31` nodes does not fit in memory.
-/
import IDeviceStack.Lib.Dll

namespace IDeviceStack.Cnary

open Lib

/-- A value of type `node_t *`. -/
inductive Ref where
  | null
  | node (a : Nat)
  | list (p : Nat)
  deriving DecidableEq, Repr

/-- `struct node_list_t`: `begin`, `end` and `count`. -/
structure NodeList where
  beginRef : Ref
  endRef : Ref
  count : Nat
  deriving DecidableEq, Repr

/-- `struct node_t`. -/
structure Node (α : Type) where
  next : Ref
  prev : Ref
  count : Nat
  isRoot : Bool
  isLeaf : Bool
  data : α
  depth : Nat
  parent : Ref
  children : NodeList

/-- Memory: the nodes that are allocated, all below `top`. -/
structure Heap (α : Type) where
  cells : Nat → Option (Node α)
  top : Nat
  fresh : ∀ a, top ≤ a → cells a = none

variable {α : Type}

namespace Heap

def empty : Heap α := ⟨fun _ => none, 0, fun _ _ => rfl⟩

/-- `malloc` of a node. -/
def alloc (h : Heap α) (n : Node α) : Nat × Heap α :=
  (h.top,
    { cells := fun b => if b = h.top then some n else h.cells b
      top := h.top + 1
      fresh := by
        intro a ha
        rw [if_neg (by omega)]
        exact h.fresh a (by omega) })

/-- Apply `f` to the node at `a`, if there is one. -/
def adjust (h : Heap α) (a : Nat) (f : Node α → Node α) : Heap α where
  cells := fun b => if b = a then (h.cells b).map f else h.cells b
  top := h.top
  fresh := by
    intro b hb
    simp [h.fresh b hb]

/-- `free`. -/
def release (h : Heap α) (a : Nat) : Heap α where
  cells := fun b => if b = a then none else h.cells b
  top := h.top
  fresh := by
    intro b hb
    simp [h.fresh b hb]

/-- Write to the node at `a`; undefined if there is none. -/
def modify (h : Heap α) (a : Nat) (f : Node α → Node α) : Option (Heap α) :=
  if (h.cells a).isSome then some (h.adjust a f) else none

/-- `r->next`. -/
def getNext (h : Heap α) : Ref → Option Ref
  | .null => none
  | .node a => (h.cells a).map Node.next
  | .list p => (h.cells p).map fun n => n.children.beginRef

/-- `r->next = v`. -/
def setNext (h : Heap α) (r v : Ref) : Option (Heap α) :=
  match r with
  | .null => none
  | .node a => h.modify a fun n => { n with next := v }
  | .list p => h.modify p fun n => { n with children := { n.children with beginRef := v } }

/-- `r->prev = v`. -/
def setPrev (h : Heap α) (r v : Ref) : Option (Heap α) :=
  match r with
  | .null => none
  | .node a => h.modify a fun n => { n with prev := v }
  | .list p => h.modify p fun n => { n with children := { n.children with endRef := v } }

end Heap

/-! ## `list.c`, `node_list.c` -/

/-- `list_init` on the list of node `p`. -/
def listInit (p : Nat) : NodeList := ⟨.null, .list p, 0⟩

/-- `list->begin = v`. -/
def setBegin (h : Heap α) (p : Nat) (v : Ref) : Option (Heap α) :=
  h.modify p fun n => { n with children := { n.children with beginRef := v } }

/-- `list->end = v`. -/
def setEnd (h : Heap α) (p : Nat) (v : Ref) : Option (Heap α) :=
  h.modify p fun n => { n with children := { n.children with endRef := v } }

/-- `list->count += d`, or `-= 1` for `d = -1`. -/
def bumpCount (h : Heap α) (p : Nat) (f : Nat → Nat) : Option (Heap α) :=
  h.modify p fun n => { n with children := { n.children with count := f n.children.count } }

/-- `node_list_add` on the list of `p`. -/
def nodeListAdd (h : Heap α) (p a : Nat) : Option (Heap α) := do
  let np ← h.cells p
  let last := np.children.endRef
  let h₁ ← h.modify a fun n => { n with next := .null, prev := last }
  let h₂ ← if last = .null then some h₁ else h₁.setNext last (.node a)
  let h₃ ← setEnd h₂ p (.node a)
  bumpCount h₃ p (· + 1)

/-- The `while (pos < node_index)` loop of `node_list_insert`. -/
def advance (h : Heap α) : Nat → Ref → Ref → Option (Ref × Ref)
  | 0, prev, cur => some (prev, cur)
  | k + 1, _, cur => do
      let next ← h.getNext cur
      advance h k cur next

/-- `node_list_insert` on the list of `p`. -/
def nodeListInsert (h : Heap α) (p nodeIndex a : Nat) : Option (Heap α) := do
  let np ← h.cells p
  if nodeIndex ≥ np.children.count then
    nodeListAdd h p a
  else
    let (prev, _) ← advance h nodeIndex .null np.children.beginRef
    let h₁ ←
      if prev ≠ .null then do
        let next ← h.getNext prev
        let h ← h.modify a fun n => { n with prev := prev, next := next }
        h.setNext prev (.node a)
      else do
        let h ← h.modify a fun n => { n with prev := .null, next := np.children.beginRef }
        setBegin h p (.node a)
    let na ← h₁.cells a
    let h₂ ← if na.next = .null then setEnd h₁ p (.node a) else h₁.setPrev na.next (.node a)
    bumpCount h₂ p (· + 1)

/-- The search loop of `node_list_remove`: the position of `a`, if it is in the list. -/
def findPos (h : Heap α) (a : Nat) : Nat → Ref → Nat → Option (Option Nat)
  | 0, _, _ => none
  | fuel + 1, n, nodeIndex =>
    if n = .null then
      some none
    else if n = .node a then
      some (some nodeIndex)
    else do
      let next ← h.getNext n
      findPos h a fuel next (nodeIndex + 1)

/-- `node_list_remove` on the list of `p`; the position is `none` for `-1`. -/
def nodeListRemove (h : Heap α) (p a : Nat) : Option (Heap α × Option Nat) := do
  let np ← h.cells p
  if np.children.count = 0 then
    some (h, none)
  else
    match ← findPos h a (h.top + 1) np.children.beginRef 0 with
    | none => some (h, none)
    | some nodeIndex => do
        let na ← h.cells a
        let newnode := na.next
        let h₁ ←
          if na.prev ≠ .null then do
            let h ← h.setNext na.prev newnode
            if newnode ≠ .null then h.setPrev newnode na.prev else setEnd h p na.prev
          else do
            let h ← if newnode ≠ .null then h.setPrev newnode .null else some h
            setBegin h p newnode
        let h₂ ← bumpCount h₁ p (· - 1)
        some (h₂, some nodeIndex)

/-! ## `node.c` -/

/-- `node_create(NULL, data)`. -/
def nodeCreate (h : Heap α) (data : α) : Nat × Heap α :=
  h.alloc
    { next := .null, prev := .null, count := 0, isRoot := true, isLeaf := true, data := data
      depth := 0, parent := .null, children := listInit h.top }

/-- What `node_attach` and `node_insert` do before they touch the list. -/
def adopt (h : Heap α) (p a : Nat) : Option (Heap α) := do
  let np ← h.cells p
  let h₁ ← h.modify a fun n =>
    { n with isLeaf := true, isRoot := false, parent := .node p, depth := np.depth + 1 }
  h₁.modify p fun n => { n with isLeaf := false }

/-- `parent->count` after a node came or went. -/
def bumpNodeCount (h : Heap α) (p : Nat) (f : Nat → Nat) : Option (Heap α) :=
  h.modify p fun n => { n with count := f n.count }

def nodeAttach (h : Heap α) (p a : Nat) : Option (Heap α) := do
  let h₁ ← adopt h p a
  let h₂ ← nodeListAdd h₁ p a
  bumpNodeCount h₂ p (· + 1)

def nodeInsert (h : Heap α) (p nodeIndex a : Nat) : Option (Heap α) := do
  let h₁ ← adopt h p a
  let h₂ ← nodeListInsert h₁ p nodeIndex a
  bumpNodeCount h₂ p (· + 1)

/-- `node_detach`; a node without a parent is not in any list. -/
def nodeDetach (h : Heap α) (parent : Ref) (a : Nat) : Option (Heap α × Option Nat) :=
  match parent with
  | .node p => do
      let (h₁, nodeIndex) ← nodeListRemove h p a
      match nodeIndex with
      | none => some (h₁, none)
      | some i => do
          let h₂ ← bumpNodeCount h₁ p (· - 1)
          some (h₂, some i)
  | _ => some (h, none)

def nodeFirstChild (h : Heap α) (p : Nat) : Option Ref :=
  (h.cells p).map fun n => n.children.beginRef

def nodeNextSibling (h : Heap α) : Ref → Option Ref
  | .null => some .null
  | r => h.getNext r

def nodePrevSibling (h : Heap α) : Ref → Option Ref
  | .null => some .null
  | .node a => (h.cells a).map Node.prev
  | .list p => (h.cells p).map fun n => n.children.endRef

def nodeNChildren (h : Heap α) (p : Nat) : Option Nat := (h.cells p).map Node.count

/-- The loop of `node_nth_child`. -/
def nthFrom (h : Heap α) : Nat → Ref → Nat → Option Ref
  | 0, _, _ => none
  | fuel + 1, ch, n =>
    if ch = .null then
      some .null
    else if n = 0 then
      some ch
    else do
      let next ← h.getNext ch
      nthFrom h fuel next (n - 1)

def nodeNthChild (h : Heap α) (p n : Nat) : Option Ref := do
  let np ← h.cells p
  nthFrom h (h.top + 1) np.children.beginRef n

mutual

def nodeDestroy : Nat → Heap α → Nat → Option (Heap α)
  | 0, _, _ => none
  | fuel + 1, h, a => do
      let na ← h.cells a
      let h₁ ← if na.children.count > 0 then destroyChildren fuel h a else some h
      some (h₁.release a)

/-- The loop of `node_destroy`. -/
def destroyChildren : Nat → Heap α → Nat → Option (Heap α)
  | 0, _, _ => none
  | fuel + 1, h, a => do
      let na ← h.cells a
      match na.children.beginRef with
      | .node ch => do
          let (h₁, _) ← nodeListRemove h a ch
          let h₂ ← nodeDestroy fuel h₁ ch
          destroyChildren fuel h₂ a
      | _ => some h

end

end IDeviceStack.Cnary
