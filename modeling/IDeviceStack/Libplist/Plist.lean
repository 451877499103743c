/-
# `Libplist.Plist` — plist nodes in memory

The functions of `plist.c` that create, free and look up nodes, with the array
and dictionary operations, over the nodes of `libcnary`.

A node's `data` is a separate allocation in C, made and freed with the node.  It
is kept in the node's cell here, `none` standing for a `NULL` pointer; a pointer
to the data of a node, as the hash table of a dictionary keeps it, is the node's
address.  The recursion of `plist_free_node` is bounded by the number of
addresses there are.

`none` as the result of a function means that it has left what C defines:
memory that is not allocated was touched, or an `assert` failed.  Pointer
arguments that every caller passes as valid (`node`, `item`) are addresses.
-/
import IDeviceStack.Cnary.Node
import IDeviceStack.Libplist.Data
import IDeviceStack.Libplist.Hashtable

namespace IDeviceStack.Libplist

open Cnary

/-- The hash table of a dictionary: from pointers to key data to nodes. -/
abbrev DictTable := HashTable Nat Ref

/-- The union of `struct plist_data_s`, with its tag. -/
inductive Value where
  | scalar (s : Scalar)
  | array
  | dict (hashtable : Option DictTable)

/-- `struct plist_data_s`. -/
structure PlistData where
  value : Value
  length : Nat

def PlistData.type (d : PlistData) : PlistType :=
  match d.value with
  | .scalar s => s.type
  | .array => .array
  | .dict _ => .dict

abbrev PHeap := Heap (Option PlistData)

def plistNewNode (h : PHeap) (data : PlistData) : Nat × PHeap := nodeCreate h (some data)

def plistNewArray (h : PHeap) : Nat × PHeap := plistNewNode h ⟨.array, 0⟩

def plistNewDict (h : PHeap) : Nat × PHeap := plistNewNode h ⟨.dict none, 0⟩

def plistNewKey (h : PHeap) (val : List UInt8) : Nat × PHeap :=
  plistNewNode h ⟨.scalar (.key (cstr val)), strlen val⟩

def plistGetData (h : PHeap) (node : Nat) : Option (Option PlistData) := (h.cells node).map Node.data

def plistGetNodeType (h : PHeap) (node : Nat) : Option PlistType := do
  let data ← plistGetData h node
  some (match data with | some d => d.type | none => .none)

mutual

/-- `plist_free_node`: the index the node had, `none` for `-1`. -/
def plistFreeNode : Nat → PHeap → Nat → Option (PHeap × Option Nat)
  | 0, _, _ => none
  | fuel + 1, h, node => do
      let n ← h.cells node
      let (h₁, nodeIndex) ← nodeDetach h n.parent node
      let h₂ ← plistFreeBody fuel h₁ node
      some (h₂, nodeIndex)

/-- What `plist_free_node` does once the node is detached. -/
def plistFreeBody : Nat → PHeap → Nat → Option PHeap
  | 0, _, _ => none
  | fuel + 1, h, node => do
      let h₁ ← h.modify node fun n => { n with data := none }
      let n ← h₁.cells node
      let h₂ ← plistFreeChildren fuel h₁ n.children.beginRef
      nodeDestroy (fuel + 1) h₂ node

/-- The iterator loop of `plist_free_node`: the next child is read before this one goes. -/
def plistFreeChildren : Nat → PHeap → Ref → Option PHeap
  | 0, _, _ => none
  | _ + 1, h, .null => some h
  | fuel + 1, h, .node ch => do
      let next ← h.getNext (.node ch)
      let (h₁, _) ← plistFreeNode fuel h ch
      plistFreeChildren fuel h₁ next
  | _ + 1, _, .list _ => none

end

/-- `plist_free`, and `plist_free_node` as the other functions call it. -/
def plistFree (h : PHeap) (node : Nat) : Option (PHeap × Option Nat) :=
  plistFreeNode (3 * h.top + 3) h node

/-! ## Arrays -/

def plistArrayGetItem (h : PHeap) (node n : Nat) : Option Ref := do
  if (← plistGetNodeType h node) = .array then nodeNthChild h node n else some .null

/-- Put `item` where a freed node was: at its index, or at the end if it had none. -/
def putBack (h : PHeap) (node item : Nat) (idx : Option Nat) : Option PHeap :=
  match idx with
  | none => nodeAttach h node item
  | some i => nodeInsert h node i item

def plistArraySetItem (h : PHeap) (node item n : Nat) : Option PHeap := do
  if (← plistGetNodeType h node) = .array then
    match ← plistArrayGetItem h node n with
    | .node oldItem => do
        let (h₁, idx) ← plistFree h oldItem
        putBack h₁ node item idx
    | .null => some h
    | .list _ => none
  else
    some h

def plistArrayAppendItem (h : PHeap) (node item : Nat) : Option PHeap := do
  if (← plistGetNodeType h node) = .array then nodeAttach h node item else some h

def plistArrayInsertItem (h : PHeap) (node item n : Nat) : Option PHeap := do
  if (← plistGetNodeType h node) = .array then nodeInsert h node n item else some h

def plistArrayRemoveItem (h : PHeap) (node n : Nat) : Option PHeap := do
  if (← plistGetNodeType h node) = .array then
    match ← plistArrayGetItem h node n with
    | .node oldItem => do
        let (h₁, _) ← plistFree h oldItem
        some h₁
    | .null => some h
    | .list _ => none
  else
    some h

/-! ## Dictionaries -/

/-- `strval` and `length` of the data of node `k`; reading `strval` of another type is undefined. -/
def keyData (h : PHeap) (k : Nat) : Option (List UInt8 × Nat) := do
  let data ← plistGetData h k
  match data with
  | some ⟨.scalar (.key s), length⟩ => some (s, length)
  | some ⟨.scalar (.string s), length⟩ => some (s, length)
  | _ => none

/-- `dict_key_hash`; `char` is signed. -/
def dictKeyHash (key : List UInt8 × Nat) : Option (BitVec 32) :=
  if key.2 ≤ key.1.length + 1 then
    some (((key.1 ++ [0]).take key.2).foldl
      (fun (hash : BitVec 32) (c : UInt8) => ((hash <<< 5) + hash) + c.toBitVec.signExtend 32) 5381#32)
  else
    none

/-- `dict_key_compare`; no `strval` is `NULL` here. -/
def dictKeyCompare (a b : List UInt8 × Nat) : Bool :=
  if a.2 ≠ b.2 then false else streq a.1 b.1

/-- `compare_func` of the table against a given key. -/
def compareWith (h : PHeap) (key : List UInt8 × Nat) (k : Nat) : Option Bool :=
  (keyData h k).map fun a => dictKeyCompare a key

/-- `hash_table_insert(ht, key_node->data, value)`; nothing happens if that data is `NULL`. -/
def dictTableInsert (h : PHeap) (ht : DictTable) (keyNode : Nat) (value : Ref) :
    Option DictTable := do
  match ← plistGetData h keyNode with
  | none => some ht
  | some _ => do
      let key ← keyData h keyNode
      let hash ← dictKeyHash key
      hashTableInsert ht hash (compareWith h key) keyNode value

/-- The linear search of `plist_dict_get_item`. -/
def scanDict (h : PHeap) (key : List UInt8) : Nat → Ref → Option Ref
  | 0, _ => none
  | _ + 1, .null => some .null
  | fuel + 1, .node current => do
      if (← plistGetNodeType h current) = .key then
        let (strval, _) ← keyData h current
        let value ← nodeNextSibling h (.node current)
        if streq key strval then
          some value
        else
          let next ← nodeNextSibling h value
          scanDict h key fuel next
      else
        none
  | _ + 1, .list _ => none

/-- The `hashtable` of a dictionary node. -/
def dictHashtable (h : PHeap) (node : Nat) : Option (Option DictTable) := do
  match ← plistGetData h node with
  | some ⟨.dict ht, _⟩ => some ht
  | _ => none

def plistDictGetItem (h : PHeap) (node : Nat) (key : List UInt8) : Option Ref := do
  if (← plistGetNodeType h node) = .dict then
    match ← dictHashtable h node with
    | some ht => do
        let sdata := (key, strlen key)
        let hash ← dictKeyHash sdata
        let value ← hashTableLookup ht hash (compareWith h sdata)
        some (value.getD .null)
    | none => do
        let first ← nodeFirstChild h node
        scanDict h key (h.top + 1) first
  else
    some .null

/-- The loop that enters all children into a new hash table. -/
def indexDict (h : PHeap) : Nat → Ref → DictTable → Option DictTable
  | 0, _, _ => none
  | _ + 1, .null, ht => some ht
  | fuel + 1, .node current, ht => do
      let value ← nodeNextSibling h (.node current)
      let ht ← dictTableInsert h ht current value
      let next ← nodeNextSibling h value
      indexDict h fuel next ht
  | _ + 1, .list _, _ => none

/-- `((plist_data_t)node->data)->hashtable = ht`. -/
def setHashtable (h : PHeap) (node : Nat) (ht : Option DictTable) : Option PHeap :=
  h.modify node fun n => { n with data := n.data.map fun d => { d with value := .dict ht } }

/-- The first half of `plist_dict_set_item`: the tree with the item in it, and its key node. -/
def dictPlace (h : PHeap) (node : Nat) (key : List UInt8) (item : Nat) :
    Option (PHeap × Nat) := do
  match ← plistDictGetItem h node key with
  | .node oldItem => do
      let (h₁, idx) ← plistFree h oldItem
      let h₂ ← putBack h₁ node item idx
      match ← nodePrevSibling h₂ (.node item) with
      | .node keyNode => some (h₂, keyNode)
      | _ => none
  | .null => do
      let (keyNode, h₁) := plistNewKey h key
      let h₂ ← nodeAttach h₁ node keyNode
      let h₃ ← nodeAttach h₂ node item
      some (h₃, keyNode)
  | .list _ => none

/-- The second half of `plist_dict_set_item`: the hash table follows. -/
def dictIndex (h : PHeap) (node keyNode item : Nat) : Option PHeap := do
  match ← dictHashtable h node with
  | some ht => do
      let ht ← dictTableInsert h ht keyNode (.node item)
      setHashtable h node (some ht)
  | none => do
      if (← nodeNChildren h node) > 500 then
        let first ← nodeFirstChild h node
        let ht ← indexDict h (h.top + 1) first hashTableNew
        setHashtable h node (some ht)
      else
        some h

def plistDictSetItem (h : PHeap) (node : Nat) (key : List UInt8) (item : Nat) : Option PHeap := do
  if (← plistGetNodeType h node) = .dict then
    let (h₁, keyNode) ← dictPlace h node key item
    dictIndex h₁ node keyNode item
  else
    some h

/-- `hash_table_remove(ht, key_node->data)`, if there is a table. -/
def dictUnindex (h : PHeap) (node keyNode : Nat) : Option PHeap := do
  match ← dictHashtable h node with
  | none => some h
  | some ht => do
      match ← plistGetData h keyNode with
      | none => some h
      | some _ => do
          let key ← keyData h keyNode
          let hash ← dictKeyHash key
          let ht ← hashTableRemove ht hash (compareWith h key)
          setHashtable h node (some ht)

def plistDictRemoveItem (h : PHeap) (node : Nat) (key : List UInt8) : Option PHeap := do
  if (← plistGetNodeType h node) = .dict then
    match ← plistDictGetItem h node key with
    | .node oldItem => do
        match ← nodePrevSibling h (.node oldItem) with
        | .node keyNode => do
            let h₁ ← dictUnindex h node keyNode
            let (h₂, _) ← plistFree h₁ keyNode
            let (h₃, _) ← plistFree h₂ oldItem
            some h₃
        | _ => none
    | .null => some h
    | .list _ => none
  else
    some h

/-- `plist_get_key_val`: a copy of the key.  Without one it takes `strlen(NULL)`. -/
def plistGetKeyVal (h : PHeap) : Ref → Option (List UInt8)
  | .node a => do
      if (← plistGetNodeType h a) = .key then
        let (strval, length) ← keyData h a
        if length = strlen strval then some (cstr strval) else none
      else
        none
  | _ => none

/-- `plist_dict_next_item`: key, value and the iterator's next position. -/
def plistDictNextItem (h : PHeap) (node iter : Nat) :
    Option (Option (List UInt8) × Ref × Nat) := do
  if (← plistGetNodeType h node) = .dict ∧ iter < (← nodeNChildren h node) then
    let key ← plistGetKeyVal h (← nodeNthChild h node iter)
    let val ← nodeNthChild h node (iter + 1)
    some (some key, val, iter + 2)
  else
    some (none, .null, iter)

end IDeviceStack.Libplist
