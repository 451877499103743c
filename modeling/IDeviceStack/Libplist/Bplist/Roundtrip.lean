/-
# `Libplist.Bplist.Roundtrip` — what is written is read back

`plist_to_bin` writes a table of objects (`plistToBin_eq`), and the tree that the
table stands for is the tree that was written: each node is referred to by the index
of a node that compares equal, which for a scalar has the same value and for a
container is the node itself.  The reader gets the table back and returns its tree.

That much does not need well-formed strings: whatever the strings are, what is read is
the tree with each scalar as its object is read (`plistFromBin_readBack`), or nothing
if one of them is not read (`Node.ValueIs.readBack_iff`).
-/
import IDeviceStack.Libplist.Bplist.Decode
import IDeviceStack.Libplist.Bplist.Serialize

namespace IDeviceStack.Libplist.Bplist

open Lib Relation List Option

/-! ## Plists that are written and read -/

mutual

/-- The node as a tree, without the addresses. -/
def Node.toPlist : Node → Plist
  | .scalar _ value length => .scalar value length
  | .array _ children => .array (toPlists children)
  | .dict _ children => .dict (toPlists children)

def toPlists : List Node → List Plist
  | [] => []
  | node :: nodes => node.toPlist :: toPlists nodes

end

/-- A key of a dictionary, as `P` wants its scalar to be. -/
def Node.KeyIs (P : Scalar → Nat → Prop) : Node → Prop
  | .scalar _ (.key s) length => P (.key s) length
  | _ => False

mutual

/-- A node that is not a key: its scalars are as `P` wants them, and the children of a dictionary
are keys and values in turn. -/
def Node.ValueIs (P : Scalar → Nat → Prop) : Node → Prop
  | .scalar _ (.key _) _ => False
  | .scalar _ value length => P value length
  | .array _ children => ElementsAre P children
  | .dict _ children => PairsAre P children

def ElementsAre (P : Scalar → Nat → Prop) : List Node → Prop
  | [] => True
  | node :: nodes => node.ValueIs P ∧ ElementsAre P nodes

def PairsAre (P : Scalar → Nat → Prop) : List Node → Prop
  | [] => True
  | [_] => False
  | key :: val :: nodes => key.KeyIs P ∧ val.ValueIs P ∧ PairsAre P nodes

end

/-- A node whose scalars are as the reader makes them. -/
abbrev Node.ValueOk : Node → Prop := Node.ValueIs ScalarOk

/-- The scalar of a node, if it is one, is as `P` wants it. -/
def Node.ScalarIs (P : Scalar → Nat → Prop) : Node → Prop
  | .scalar _ value length => P value length
  | _ => True

/-- A node that can be looked up: its strings have no NUL in them, but may be malformed. -/
abbrev Node.Stored (narrow : Narrow) (widen : Nat → Nat) : Node → Prop :=
  Node.ScalarIs (ScalarStored narrow widen)

section Shape

variable {P Q : Scalar → Nat → Prop} {node : Node}

theorem Node.ScalarIs.mono (h : node.ScalarIs P) (hPQ : ∀ v n, P v n → Q v n) :
    node.ScalarIs Q := by
  cases node with
  | scalar _ value length => exact hPQ value length h
  | _ => trivial

theorem Node.KeyIs.eq (h : node.KeyIs P) :
    ∃ address s length, node = .scalar address (.key s) length ∧ P (.key s) length := by
  cases node with
  | array _ _ => exact h.elim
  | dict _ _ => exact h.elim
  | scalar address value length =>
    cases value with
    | key s => exact ⟨address, s, length, rfl, h⟩
    | _ => exact h.elim

theorem Node.ValueIs.scalar {address length : Nat} {value : Scalar}
    (h : (Node.scalar address value length).ValueIs P) : P value length ∧ ∀ s, value ≠ .key s := by
  cases value with
  | key s => simp [Node.ValueIs] at h
  | _ => exact ⟨by simpa [Node.ValueIs] using h, fun _ heq => by cases heq⟩

mutual

theorem Node.ValueIs.nodes : ∀ {node : Node}, node.ValueIs P → ∀ m ∈ node.nodes, m.ScalarIs P
  | .scalar _ _ _, h, m, hm => by
    rw [Node.nodes, mem_singleton] at hm
    exact hm ▸ h.scalar.1
  | .array _ children, h, m, hm => by
    rw [Node.nodes, mem_cons] at hm
    rcases hm with rfl | hm
    · trivial
    · exact ElementsAre.nodes (by simpa [Node.ValueIs] using h) m hm
  | .dict _ children, h, m, hm => by
    rw [Node.nodes, mem_cons] at hm
    rcases hm with rfl | hm
    · trivial
    · exact PairsAre.nodes (by simpa [Node.ValueIs] using h) m hm

theorem ElementsAre.nodes : ∀ {nodes : List Node}, ElementsAre P nodes →
    ∀ m ∈ allNodes nodes, m.ScalarIs P
  | [], _, m, hm => absurd hm not_mem_nil
  | node :: nodes, h, m, hm => by
    rw [allNodes, mem_append] at hm
    rw [ElementsAre] at h
    rcases hm with hm | hm
    · exact Node.ValueIs.nodes h.1 m hm
    · exact ElementsAre.nodes h.2 m hm

theorem PairsAre.nodes : ∀ {nodes : List Node}, PairsAre P nodes →
    ∀ m ∈ allNodes nodes, m.ScalarIs P
  | [], _, m, hm => absurd hm not_mem_nil
  | [_], h, _, _ => by simp [PairsAre] at h
  | key :: val :: nodes, h, m, hm => by
    rw [allNodes, allNodes, mem_append, mem_append] at hm
    rw [PairsAre] at h
    obtain ⟨hkey, hval, hrest⟩ := h
    rcases hm with hm | hm | hm
    · obtain ⟨address, s, length, rfl, hs⟩ := hkey.eq
      rw [Node.nodes, mem_singleton] at hm
      exact hm ▸ hs
    · exact Node.ValueIs.nodes hval m hm
    · exact PairsAre.nodes hrest m hm

end

end Shape

section Stored

variable {narrow : Narrow} {widen : Nat → Nat} {node : Node}

theorem Node.ValueIs.stored (h : node.ValueOk) : ∀ m ∈ node.nodes, m.Stored narrow widen :=
  fun m hm => (h.nodes m hm).mono fun _ _ => ScalarOk.stored narrow widen

theorem Node.Stored.hash (h : node.Stored narrow widen) :
    ∃ hash, plistDataHash node = some hash := by
  cases node with
  | array _ _ => exact ⟨_, rfl⟩
  | dict _ _ => exact ⟨_, rfl⟩
  | scalar _ value length =>
    cases value with
    | string s => exact ⟨_, by simp [plistDataHash, hashedBytes, h.2]; rfl⟩
    | key s => exact ⟨_, by simp [plistDataHash, hashedBytes, h.2]; rfl⟩
    | _ => exact ⟨_, rfl⟩

theorem Node.ValueIs.hashes (h : node.ValueOk) :
    ∀ m ∈ node.nodes, ∃ hash, plistDataHash m = some hash :=
  fun m hm => (h.stored m hm : m.Stored (fun _ => none) id).hash

end Stored

mutual

/-- What is read for a node, if anything is. -/
def Node.readBack : Node → Option Plist
  | .scalar _ value length => readObject value length
  | .array _ children => (readBackAll children).map .array
  | .dict _ children => (readBackPairs children).map .dict

def readBackAll : List Node → Option (List Plist)
  | [] => some []
  | node :: nodes => do
      let t ← node.readBack
      let ts ← readBackAll nodes
      some (t :: ts)

/-- Of a dictionary, two by two; a string in the place of a key becomes a key. -/
def readBackPairs : List Node → Option (List Plist)
  | key :: val :: nodes => do
      let k ← key.readBack.bind asKey
      let t ← val.readBack
      let ts ← readBackPairs nodes
      some (k :: t :: ts)
  | _ => some []

end

/-- The string of a node, if it has one. -/
def Node.strval : Node → Option (List UInt8)
  | .scalar _ (.string s) _ => some s
  | .scalar _ (.key s) _ => some s
  | _ => none

/-- The strings and keys of a tree. -/
def Node.strings (node : Node) : List (List UInt8) := node.nodes.filterMap Node.strval

def allStrings (nodes : List Node) : List (List UInt8) := (allNodes nodes).filterMap Node.strval

@[simp] theorem Node.strings_array (a : Nat) (children : List Node) :
    (Node.array a children).strings = allStrings children := rfl

@[simp] theorem Node.strings_dict (a : Nat) (children : List Node) :
    (Node.dict a children).strings = allStrings children := rfl

@[simp] theorem allStrings_nil : allStrings [] = [] := rfl

@[simp] theorem allStrings_cons (node : Node) (nodes : List Node) :
    allStrings (node :: nodes) = node.strings ++ allStrings nodes := by
  rw [allStrings, allNodes, filterMap_append]
  rfl

/-- A scalar that comes back as it was, unless it is a string. -/
def ReadsAsIs : Scalar → Nat → Prop
  | .string s, n => n = s.length
  | .key s, n => n = s.length
  | v, n => readObject v n = some (.scalar v n)

theorem ScalarOk.readsAsIs {v : Scalar} {n : Nat} (h : ScalarOk v n) : ReadsAsIs v n := by
  cases v with
  | string s => exact h.2.2
  | key s => exact h.2.2
  | uint x =>
    obtain rfl : n = 8 := h
    rfl
  | _ => rfl

theorem asKey_readStrval (s : List UInt8) :
    ((readStrval s).bind asKey = some (.scalar (.key s) s.length) ↔ Survives s) ∧
      ((readStrval s).bind asKey = none ↔ Lost s) := by
  rw [← readStrval_eq_some_iff, ← readStrval_eq_none_iff]
  rcases readStrval_cases s with h | ⟨s', h⟩
  · simp [h]
  · simp [h, asKey]

section ReadBack

variable {P : Scalar → Nat → Prop}

mutual

theorem Node.ValueIs.readBack_iff (hP : ∀ v n, P v n → ReadsAsIs v n) :
    ∀ {node : Node}, node.ValueIs P →
      (node.readBack = some node.toPlist ↔ ∀ s ∈ node.strings, Survives s) ∧
        (node.readBack = none ↔ ∃ s ∈ node.strings, Lost s)
  | .scalar address value length, h => by
    obtain ⟨hvalue, hnokey⟩ := h.scalar
    have hread := hP value length hvalue
    cases value with
    | key s => exact absurd rfl (hnokey s)
    | string s =>
      obtain rfl : length = s.length := hread
      have hs : (Node.scalar address (.string s) s.length).strings = [s] := rfl
      rw [hs, Node.readBack, readObject, Node.toPlist, readStrval_eq_some_iff,
        readStrval_eq_none_iff]
      simp
    | _ =>
      rw [Node.readBack, hread, Node.toPlist]
      simp [Node.strings, Node.nodes, Node.strval]
  | .array _ children, h => by
    obtain ⟨hsome, hnone⟩ := ElementsAre.readBack_iff hP (by simpa [Node.ValueIs] using h)
    rw [Node.strings_array, ← hsome, ← hnone, Node.readBack, Node.toPlist]
    cases readBackAll children <;> simp
  | .dict _ children, h => by
    obtain ⟨hsome, hnone⟩ := PairsAre.readBack_iff hP (by simpa [Node.ValueIs] using h)
    rw [Node.strings_dict, ← hsome, ← hnone, Node.readBack, Node.toPlist]
    cases readBackPairs children <;> simp

theorem ElementsAre.readBack_iff (hP : ∀ v n, P v n → ReadsAsIs v n) :
    ∀ {nodes : List Node}, ElementsAre P nodes →
      (readBackAll nodes = some (toPlists nodes) ↔ ∀ s ∈ allStrings nodes, Survives s) ∧
        (readBackAll nodes = none ↔ ∃ s ∈ allStrings nodes, Lost s)
  | [], _ => by simp [readBackAll, toPlists]
  | node :: nodes, h => by
    rw [ElementsAre] at h
    obtain ⟨hsome, hnone⟩ := Node.ValueIs.readBack_iff hP h.1
    obtain ⟨hsomes, hnones⟩ := ElementsAre.readBack_iff hP h.2
    simp only [allStrings_cons, mem_append, or_imp, forall_and, or_and_right, exists_or]
    rw [← hsome, ← hnone, ← hsomes, ← hnones, readBackAll, toPlists]
    cases node.readBack <;> cases readBackAll nodes <;> simp

theorem PairsAre.readBack_iff (hP : ∀ v n, P v n → ReadsAsIs v n) :
    ∀ {nodes : List Node}, PairsAre P nodes →
      (readBackPairs nodes = some (toPlists nodes) ↔ ∀ s ∈ allStrings nodes, Survives s) ∧
        (readBackPairs nodes = none ↔ ∃ s ∈ allStrings nodes, Lost s)
  | [], _ => by simp [readBackPairs, toPlists]
  | [_], h => by simp [PairsAre] at h
  | key :: val :: nodes, h => by
    rw [PairsAre] at h
    obtain ⟨hkey, hval, hrest⟩ := h
    obtain ⟨address, s, length, rfl, hs⟩ := hkey.eq
    obtain rfl : length = s.length := hP _ _ hs
    obtain ⟨hsome, hnone⟩ := Node.ValueIs.readBack_iff hP hval
    obtain ⟨hsomes, hnones⟩ := PairsAre.readBack_iff hP hrest
    obtain ⟨hkeySome, hkeyNone⟩ := asKey_readStrval s
    have hstrings : (Node.scalar address (.key s) s.length).strings = [s] := rfl
    simp only [allStrings_cons, mem_append, or_imp, forall_and, or_and_right, exists_or, hstrings,
      mem_singleton, forall_eq, exists_eq_left]
    rw [← hsome, ← hnone, ← hsomes, ← hnones, ← hkeySome, ← hkeyNone, readBackPairs, toPlists,
      toPlists, Node.toPlist, Node.readBack, readObject]
    cases (readStrval s).bind asKey <;> cases val.readBack <;> cases readBackPairs nodes <;> simp

end

end ReadBack

theorem Node.ValueIs.validUtf8 {node : Node} (h : node.ValueOk) :
    ∀ s ∈ node.strings, ValidUtf8 s := by
  intro s hs
  obtain ⟨m, hm, hval⟩ := mem_filterMap.mp hs
  have hok := h.nodes m hm
  cases m with
  | scalar address value length =>
    cases value with
    | string s' =>
      cases hval
      exact hok.2.1
    | key s' =>
      cases hval
      exact hok.2.1
    | _ => cases hval
  | _ => cases hval

theorem Node.ValueIs.readBack_eq {node : Node} (h : node.ValueOk) :
    node.readBack = some node.toPlist :=
  (h.readBack_iff fun _ _ => ScalarOk.readsAsIs).1.mpr fun s hs => .inr (h.validUtf8 s hs)

/-! ## The table that is written -/

/-- What `serialize_plist` leaves behind for a tree. -/
structure Serialized (root : Node) (ser : SerializeS) : Prop where
  good : ser.Good
  has : ∀ m ∈ root.nodes, ser.Has m
  objects : ∀ m ∈ ser.objects, m ∈ root.nodes
  first : ser.objects[0]? = some root

theorem serializePlist_serialized {root : Node}
    (hhash : ∀ m ∈ root.nodes, ∃ hash, plistDataHash m = some hash) (haddr : root.addresses.Nodup) :
    ∃ ser, serializePlist ⟨[], hashTableNew⟩ root = some ser ∧ Serialized root ser := by
  have hgood : SerializeS.Good ⟨[], hashTableNew⟩ := by
    intro b e he
    cases he
  obtain ⟨ser, hrun, hc, hpre⟩ := serializePlist_covers root hgood hhash haddr
    (fun m hm => by cases hm)
  refine ⟨ser, hrun, hc.good, hc.has, fun m hm => ?_, ?_⟩
  · rcases hc.objects m hm with hm | hm
    · cases hm
    · exact hm
  · obtain ⟨rest, hrest⟩ := hpre fun ⟨_, _, e, he, _⟩ => by cases he
    rw [← hrest]
    rfl

/-- The index that stands for a node. -/
def indexOf (refTable : HashTable Node Nat) (node : Node) : Nat := (nodeIndex refTable node).getD 0

/-- The object that is written for a node. -/
def entryOf (refTable : HashTable Node Nat) : Node → Entry
  | .scalar _ value length => .scalar value length
  | .array _ children => .array (children.map (indexOf refTable))
  | .dict _ children =>
    .dict ((dictPairs children).map fun p => (indexOf refTable p.1, indexOf refTable p.2))

/-- The objects that `plist_to_bin` writes. -/
def SerializeS.entries (ser : SerializeS) : List Entry := ser.objects.map (entryOf ser.refTable)

section Table

variable {root : Node} {ser : SerializeS} (hser : Serialized root ser)
include hser

variable {node : Node}

theorem Serialized.indexOf_spec (h : node ∈ root.nodes) :
    nodeIndex ser.refTable node = some (indexOf ser.refTable node) ∧
      ∃ m, ser.objects[indexOf ser.refTable node]? = some m ∧ plistDataCompare m node = true := by
  obtain ⟨i, m, hi, hm, hcmp⟩ := nodeIndex_of_has hser.good (hser.has node h)
  have hidx : indexOf ser.refTable node = i := by rw [indexOf, hi, getD_some]
  rw [hidx]
  exact ⟨hi, m, hm, hcmp⟩

theorem Serialized.indexOf_lt (h : node ∈ root.nodes) :
    indexOf ser.refTable node < ser.objects.length := by
  obtain ⟨-, m, hm, -⟩ := hser.indexOf_spec h
  exact (List.getElem?_eq_some_iff.mp hm).1

omit hser in
theorem mem_of_mem_dictPairs {children : List Node} {p : Node × Node} (h : p ∈ dictPairs children) :
    p.1 ∈ children ∧ p.2 ∈ children := by
  induction children using dictPairs.induct with
  | case1 key val rest ih =>
    rw [dictPairs, mem_cons] at h
    rcases h with rfl | h
    · simp
    · simp [ih h]
  | case2 nodes hne =>
    rw [dictPairs] at h
    · cases h
    · exact hne

omit hser in
theorem length_dictPairs (children : List Node) :
    (dictPairs children).length = children.length / 2 := by
  induction children using dictPairs.induct with
  | case1 key val rest ih =>
    rw [dictPairs, length_cons, ih, length_cons, length_cons]
    omega
  | case2 nodes hne =>
    match nodes, hne with
    | [], _ => rfl
    | [_], _ => simp [dictPairs]
    | a :: b :: rest, hne => exact absurd rfl (hne a b rest)

theorem Serialized.writeNode_eq (build : Build) (narrow : Narrow) (refSize : Nat)
    (h : node ∈ root.nodes) :
    writeNode build narrow ser.refTable refSize node =
      some (match entryOf ser.refTable node with
        | .scalar value length => writeScalar build narrow value length
        | .array refs => writeMarker BPLIST_ARRAY refs.length ++ writeRefs refSize refs
        | .dict refs => writeMarker BPLIST_DICT refs.length ++
            writeRefs refSize (refs.map Prod.fst) ++ writeRefs refSize (refs.map Prod.snd)) := by
  have hmap (nodes : List Node) (hnodes : ∀ c ∈ nodes, c ∈ root.nodes) :
      nodes.mapM (nodeIndex ser.refTable) = some (nodes.map (indexOf ser.refTable)) := by
    induction nodes with
    | nil => rfl
    | cons c nodes ih =>
      obtain ⟨hc, -⟩ := hser.indexOf_spec (hnodes c mem_cons_self)
      rw [mapM_cons, hc, ih fun c' hc' => hnodes c' (mem_cons_of_mem c hc')]
      rfl
  cases node with
  | scalar _ value length => rfl
  | array _ children =>
    have hall := hmap children fun c hc => mem_nodes_of_child (b := .array _ children) hc h
    simp only [writeNode, writeArray, hall, entryOf, bind_eq_bind, bind_some, length_map]
  | dict _ children =>
    have hfst := hmap ((dictPairs children).map Prod.fst) fun c hc => by
      obtain ⟨p, hp, rfl⟩ := mem_map.mp hc
      exact mem_nodes_of_child (b := .dict _ children) (mem_of_mem_dictPairs hp).1 h
    have hsnd := hmap ((dictPairs children).map Prod.snd) fun c hc => by
      obtain ⟨p, hp, rfl⟩ := mem_map.mp hc
      exact mem_nodes_of_child (b := .dict _ children) (mem_of_mem_dictPairs hp).2 h
    rw [List.mapM_map, List.map_map] at hfst hsnd
    simp only [writeNode, writeDict, Function.comp_def, entryOf, Option.bind_eq_bind,
      List.length_map, List.map_map] at hfst hsnd ⊢
    rw [hfst, hsnd, ← length_dictPairs]
    rfl

theorem Serialized.writeNode_eq_encode (build : Build) (narrow : Narrow) {refSize : Nat}
    (hsize : refSize ≤ 8) (hnum : ser.objects.length < 2 ^ 64) (h : node ∈ root.nodes) :
    writeNode build narrow ser.refTable refSize node =
      some ((entryOf ser.refTable node).encode build narrow refSize) := by
  have hrefs (refs : List Nat) (hlt : ∀ r ∈ refs, r < 2 ^ 64) :
      writeRefs refSize refs = refs.flatMap (beBytes refSize) := by
    rw [writeRefs, flatMap_congr fun r hr => beTail_eq (hlt r hr) hsize]
  have hlt {c : Node} (hc : c ∈ root.nodes) : indexOf ser.refTable c < 2 ^ 64 := by
    have := hser.indexOf_lt hc
    omega
  rw [hser.writeNode_eq build narrow refSize h]
  cases node with
  | scalar _ value length => rfl
  | array _ children =>
    simp only [entryOf, Entry.encode]
    rw [hrefs]
    intro r hr
    obtain ⟨c, hc, rfl⟩ := mem_map.mp hr
    exact hlt (mem_nodes_of_child (b := .array _ children) hc h)
  | dict _ children =>
    simp only [entryOf, Entry.encode, List.map_map, Function.comp_def]
    rw [hrefs, hrefs, List.flatMap_append, List.append_assoc]
    · intro r hr
      obtain ⟨p, hp, rfl⟩ := List.mem_map.mp hr
      exact hlt (mem_nodes_of_child (b := .dict _ children) (mem_of_mem_dictPairs hp).2 h)
    · intro r hr
      obtain ⟨p, hp, rfl⟩ := List.mem_map.mp hr
      exact hlt (mem_nodes_of_child (b := .dict _ children) (mem_of_mem_dictPairs hp).1 h)

theorem Serialized.ref_lt (h : node ∈ root.nodes) {r : Nat}
    (hr : r ∈ (entryOf ser.refTable node).refs) : r < ser.objects.length := by
  cases node with
  | scalar _ value length => cases hr
  | array _ children =>
    obtain ⟨c, hc, rfl⟩ := mem_map.mp hr
    exact hser.indexOf_lt (mem_nodes_of_child (b := .array _ children) hc h)
  | dict _ children =>
    simp only [entryOf, Entry.refs, List.map_map, List.mem_append, List.mem_map,
      Function.comp_def] at hr
    rcases hr with ⟨p, hp, rfl⟩ | ⟨p, hp, rfl⟩
    · exact hser.indexOf_lt
        (mem_nodes_of_child (b := .dict _ children) (mem_of_mem_dictPairs hp).1 h)
    · exact hser.indexOf_lt
        (mem_nodes_of_child (b := .dict _ children) (mem_of_mem_dictPairs hp).2 h)

theorem Serialized.entry_stored {narrow : Narrow} {widen : Nat → Nat}
    (hok : ∀ m ∈ root.nodes, m.Stored narrow widen) (h : node ∈ root.nodes) :
    (entryOf ser.refTable node).Stored narrow widen ser.objects.length := by
  cases node with
  | scalar _ value length => exact hok _ h
  | array _ children => exact fun r hr => hser.ref_lt h hr
  | dict _ children => exact fun r hr => hser.ref_lt h hr

/-! ## The tree of the table -/

variable {nodes : List Node}

omit hser in
theorem decodeArray_indexOf {graph : Nat → Option Obj} {index : Node → Nat}
    (h : ∀ c ∈ nodes, ∀ t, (∃ f, decode graph f (index c) = some t) ↔ c.readBack = some t)
    (ts : List Plist) :
    (∃ f, decodeArray (decode graph f) ((nodes.map index).map some) = some ts) ↔
      readBackAll nodes = some ts := by
  induction nodes generalizing ts with
  | nil => exact ⟨fun h => h.elim fun _ h => h, fun h => ⟨0, h⟩⟩
  | cons c nodes ih =>
    have hc := h c mem_cons_self
    have hnodes := ih fun c' hc' => h c' (mem_cons_of_mem c hc')
    simp only [map_cons, decodeArray, readBackAll, bind_eq_bind, bind_eq_some_iff]
    constructor
    · rintro ⟨f, val, hval, rest, hrest, heq⟩
      exact ⟨val, (hc val).mp ⟨f, hval⟩, rest, (hnodes rest).mp ⟨f, hrest⟩, heq⟩
    · rintro ⟨val, hval, rest, hrest, heq⟩
      obtain ⟨f1, h1⟩ := (hc val).mpr hval
      obtain ⟨f2, h2⟩ := (hnodes rest).mpr hrest
      exact ⟨max f1 f2, val, decode_of_le (Nat.le_max_left f1 f2) h1, rest,
        decodeArray_mono (fun i t => decode_of_le (i := i) (t := t) (Nat.le_max_right f1 f2)) h2, heq⟩

omit hser in
theorem decodeDict_indexOf {graph : Nat → Option Obj} {index : Node → Nat} {nodes : List Node}
    (h : ∀ c ∈ nodes, ∀ t, (∃ f, decode graph f (index c) = some t) ↔ c.readBack = some t)
    (ts : List Plist) :
    (∃ f, decodeDict (decode graph f)
        (((dictPairs nodes).map fun p => (index p.1, index p.2)).map some) = some ts) ↔
      readBackPairs nodes = some ts := by
  induction nodes using dictPairs.induct generalizing ts with
  | case1 key val rest ih =>
    have hkey := h key (by simp)
    have hval := h val (by simp)
    have hrest := ih fun c hc => h c (by simp [hc])
    simp only [dictPairs, map_cons, decodeDict, readBackPairs, bind_eq_bind, bind_eq_some_iff]
    constructor
    · rintro ⟨f, k, ⟨str, hstr, hk⟩, t, ht, us, hus, heq⟩
      exact ⟨k, ⟨str, (hkey str).mp ⟨f, hstr⟩, hk⟩, t, (hval t).mp ⟨f, ht⟩, us,
        (hrest us).mp ⟨f, hus⟩, heq⟩
    · rintro ⟨k, ⟨str, hstr, hk⟩, t, ht, us, hus, heq⟩
      obtain ⟨f1, h1⟩ := (hkey str).mpr hstr
      obtain ⟨f2, h2⟩ := (hval t).mpr ht
      obtain ⟨f3, h3⟩ := (hrest us).mpr hus
      have h23 := decode_of_le (Nat.le_trans (Nat.le_max_left f2 f3) (Nat.le_max_right f1 _)) h2
      exact ⟨max f1 (max f2 f3), k, ⟨str, decode_of_le (Nat.le_max_left f1 _) h1, hk⟩, t, h23, us,
        decodeDict_mono (fun i t => decode_of_le (i := i) (t := t)
          (Nat.le_trans (Nat.le_max_right f2 f3) (Nat.le_max_right f1 _))) h3, heq⟩
  | case2 nodes hne =>
    rw [dictPairs, readBackPairs]
    · exact ⟨fun h => h.elim fun _ h => h, fun h => ⟨0, h⟩⟩
    · exact hne
    · exact hne

/-- **The table stands for what is read back.** -/
theorem Serialized.decode_object {narrow : Narrow} {widen : Nat → Nat}
    (haddr : root.addresses.Nodup) (hok : ∀ m ∈ root.nodes, m.Stored narrow widen)
    (node : Node) (i : Nat) (hi : ser.objects[i]? = some node) (t : Plist) :
    (∃ f, decode (foundGraph ser.entries) f i = some t) ↔ node.readBack = some t := by
  have hgraph (j : Nat) (m : Node) (hj : ser.objects[j]? = some m) :
      foundGraph ser.entries j = some (entryOf ser.refTable m).found := by
    rw [foundGraph, SerializeS.entries, List.getElem?_map, hj]
    rfl
  have hturn (j : Nat) (t : Plist) : (∃ f, decode (foundGraph ser.entries) f j = some t) ↔
      ∃ f, decode (foundGraph ser.entries) (f + 1) j = some t := by
    constructor
    · rintro ⟨f, hf⟩
      exact ⟨f, decode_succ j t hf⟩
    · rintro ⟨f, hf⟩
      exact ⟨f + 1, hf⟩
  induction hsize : sizeOf node using Nat.strong_induction_on generalizing node i t with
  | _ n ih =>
    have hmem := hser.objects node (mem_of_getElem? hi)
    -- the children, through nodes that are equal to them
    have hchild (c : Node) (hc : c ∈ node.children) (hlt : sizeOf c < sizeOf node) (t : Plist) :
        (∃ f, decode (foundGraph ser.entries) f (indexOf ser.refTable c) = some t) ↔
          c.readBack = some t := by
      have hcmem := mem_nodes_of_child hc hmem
      obtain ⟨-, m, hm, hcmp⟩ := hser.indexOf_spec hcmem
      have hmmem := hser.objects m (mem_of_getElem? hm)
      by_cases hcont : ∀ x v k, c ≠ .scalar x v k
      · have heq : m = c := inj_on_of_nodup_map haddr hmmem hcmem
          (address_eq_of_compare hcont hcmp)
        exact ih (sizeOf c) (hsize ▸ hlt) c _ (heq ▸ hm) t rfl
      · simp only [not_forall, not_not] at hcont
        obtain ⟨x, v, k, rfl⟩ := hcont
        obtain ⟨x', rfl⟩ := eq_of_compare (hok _ hcmem) (fun _ _ _ heq => by
          have hm' := hok _ hmmem
          rwa [heq] at hm') hcmp
        simp only [hturn, decode, hgraph _ _ hm, entryOf, Entry.found, Node.readBack]
        exact ⟨fun h => h.elim fun _ h => h, fun h => ⟨0, h⟩⟩
    have hlist (F : List Plist → Plist) {g : Nat → Option (List Plist)} {back : Option (List Plist)}
        (hall : ∀ ts, (∃ f, g f = some ts) ↔ back = some ts) :
        (∃ f ts, g f = some ts ∧ F ts = t) ↔ ∃ ts, back = some ts ∧ F ts = t := by
      simp only [← hall]
      exact exists_comm.trans (by simp)
    simp only [hturn, decode, hgraph i node hi]
    cases node with
    | scalar _ value length => exact ⟨fun h => h.elim fun _ h => h, fun h => ⟨0, h⟩⟩
    | array a children =>
      have hall := decodeArray_indexOf (fun c (hc : c ∈ children) => hchild c hc (by
        have := sizeOf_lt_of_mem hc
        simp
        omega))
      simp only [entryOf, Entry.found, Entry.obj, Node.readBack, map_eq_some_iff]
      exact hlist _ hall
    | dict a children =>
      have hall := decodeDict_indexOf (fun c (hc : c ∈ children) => hchild c hc (by
        have := sizeOf_lt_of_mem hc
        simp
        omega))
      simp only [entryOf, Entry.found, Entry.obj, Node.readBack, map_eq_some_iff]
      exact hlist _ hall

/-! ## The file -/

omit hser in
theorem writeObjects_eq {write : Node → Option (List UInt8)} {encode : Node → List UInt8}
    (h : ∀ node ∈ nodes, write node = some (encode node)) (buff : List UInt8) (offsets : List Nat) :
    writeObjects write nodes buff offsets =
      some (buff ++ (nodes.map encode).flatten,
        offsets ++ offsetsFrom buff.length (nodes.map encode)) := by
  induction nodes generalizing buff offsets with
  | nil => simp [writeObjects, offsetsFrom]
  | cons node nodes ih =>
    rw [writeObjects, h node mem_cons_self, bind_eq_bind, bind_some,
      ih fun m hm => h m (mem_cons_of_mem node hm)]
    simp [offsetsFrom]

omit hser in
theorem getNeededBytes_le (x : Nat) : 1 ≤ getNeededBytes x ∧ getNeededBytes x ≤ 8 := by
  unfold getNeededBytes
  split_ifs <;> omega

omit hser in
theorem length_beTail (x : Nat) {n : Nat} (hn : n ≤ 8) : (beTail x n).length = n := by
  rw [beTail, length_drop, length_leBytes]
  omega

omit hser in
theorem offsetsFrom_le {start x : Nat} {objs : List (List UInt8)} (h : x ∈ offsetsFrom start objs) :
    x ≤ start + objs.flatten.length := by
  induction objs generalizing start with
  | nil => cases h
  | cons obj objs ih =>
    rw [flatten_cons, length_append]
    rw [offsetsFrom, mem_cons] at h
    rcases h with rfl | h
    · omega
    · have := ih h
      omega

theorem Serialized.writeObjects_some (build : Build) (narrow : Narrow) (refSize : Nat) :
    ∃ encode : Node → List UInt8,
      (∀ node ∈ ser.objects, writeNode build narrow ser.refTable refSize node = some (encode node)) ∧
        writeObjects (writeNode build narrow ser.refTable refSize) ser.objects
          (BPLIST_MAGIC ++ BPLIST_VERSION) [] =
            some (BPLIST_MAGIC ++ BPLIST_VERSION ++ (ser.objects.map encode).flatten,
              [] ++ offsetsFrom (BPLIST_MAGIC ++ BPLIST_VERSION).length (ser.objects.map encode)) := by
  have hwrite : ∀ node ∈ ser.objects, writeNode build narrow ser.refTable refSize node =
      some ((writeNode build narrow ser.refTable refSize node).getD []) := by
    intro node hnode
    rw [hser.writeNode_eq build narrow refSize (hser.objects node hnode), getD_some]
  exact ⟨_, hwrite, writeObjects_eq hwrite _ _⟩

omit hser in
theorem length_flatten_map_le {encode : Node → List UInt8} {k : Nat}
    (h : ∀ node ∈ nodes, (encode node).length ≤ k) :
    (nodes.map encode).flatten.length ≤ nodes.length * k := by
  induction nodes with
  | nil => exact Nat.zero_le _
  | cons node nodes ih =>
    have hnode := h node mem_cons_self
    have hrest := ih fun m hm => h m (mem_cons_of_mem node hm)
    rw [map_cons, flatten_cons, length_append, length_cons, Nat.succ_mul]
    omega

theorem Serialized.length_plistToBin_le (build : Build) (narrow : Narrow)
    (hrun : serializePlist ⟨[], hashTableNew⟩ root = some ser) {k : Nat}
    (hk : ∀ node ∈ root.nodes, ∀ bs,
      writeNode build narrow ser.refTable (getNeededBytes ser.objects.length) node = some bs →
        bs.length ≤ k) {bytes : List UInt8} (hbytes : plistToBin build narrow root = some bytes) :
    bytes.length ≤ 40 + ser.objects.length * (k + 8) := by
  obtain ⟨encode, hwrite, hobjects⟩ := hser.writeObjects_some build narrow
    (getNeededBytes ser.objects.length)
  simp only [plistToBin, hrun, bind_eq_bind, bind_some, hobjects] at hbytes
  rw [← some.inj hbytes]
  generalize hbody : BPLIST_MAGIC ++ BPLIST_VERSION ++ (ser.objects.map encode).flatten = body
  have hbodyLen : body.length = 8 + (ser.objects.map encode).flatten.length := by
    rw [← hbody, length_append]
    rfl
  have hobjectsLen : (ser.objects.map encode).flatten.length ≤ ser.objects.length * k := by
    refine length_flatten_map_le fun node hnode => ?_
    exact hk node (hser.objects node hnode) _ (hwrite node hnode)
  have hoff8 := (getNeededBytes_le body.length).2
  have hmul := Nat.mul_le_mul_left ser.objects.length hoff8
  simp only [length_append, length_flatMap_of_const (fun x => length_beTail x hoff8), nil_append,
    length_offsetsFrom, length_map, length_replicate, length_leBytes, length_cons, length_nil]
  rw [Nat.mul_add]
  omega

theorem Serialized.length_le_plistToBin (build : Build) (narrow : Narrow)
    (hrun : serializePlist ⟨[], hashTableNew⟩ root = some ser) {bs bytes : List UInt8}
    (hbs : writeNode build narrow ser.refTable (getNeededBytes ser.objects.length) root = some bs)
    (hbytes : plistToBin build narrow root = some bytes) : bs.length + 40 ≤ bytes.length := by
  obtain ⟨encode, hwrite, hobjects⟩ := hser.writeObjects_some build narrow
    (getNeededBytes ser.objects.length)
  simp only [plistToBin, hrun, bind_eq_bind, bind_some, hobjects] at hbytes
  rw [← some.inj hbytes]
  have hmem : root ∈ ser.objects := mem_of_getElem? hser.first
  rw [hwrite root hmem] at hbs
  have hin : bs.length ≤ (ser.objects.map encode).flatten.length := by
    rw [← some.inj hbs]
    exact (sublist_flatten_of_mem (mem_map_of_mem hmem)).length_le
  have hmagic : (BPLIST_MAGIC ++ BPLIST_VERSION).length = 8 := rfl
  simp only [length_append, length_replicate, length_leBytes, length_cons, length_nil] at hmagic ⊢
  omega

theorem Serialized.plistToBin_eq (build : Build) (narrow : Narrow)
    (hrun : serializePlist ⟨[], hashTableNew⟩ root = some ser) :
    ∃ bytes, plistToBin build narrow root = some bytes ∧
      (bytes.length < 2 ^ 64 → ∃ offsetSize refSize,
        offsetSize = getNeededBytes (tableBody build narrow refSize ser.entries).length ∧
          refSize = getNeededBytes ser.objects.length ∧
          bytes = encodeTable build narrow offsetSize refSize ser.entries 0) := by
  obtain ⟨refSize, hrefSize⟩ : ∃ n, getNeededBytes ser.objects.length = n := ⟨_, rfl⟩
  have href8 := (getNeededBytes_le ser.objects.length).2
  rw [hrefSize] at href8
  obtain ⟨encode, hwrite, hobjects⟩ := hser.writeObjects_some build narrow refSize
  simp only [plistToBin, hrun, bind_eq_bind, bind_some, hrefSize, hobjects]
  refine ⟨_, rfl, fun hlen => ?_⟩
  obtain ⟨body, hbody⟩ : ∃ b, BPLIST_MAGIC ++ BPLIST_VERSION ++ (ser.objects.map encode).flatten = b :=
    ⟨_, rfl⟩
  rw [hbody] at hlen ⊢
  obtain ⟨hoff1, hoff8⟩ := getNeededBytes_le body.length
  obtain ⟨offsets, hoffsets⟩ : ∃ l, offsetsFrom 8 (ser.objects.map encode) = l := ⟨_, rfl⟩
  have hoffs : [] ++ offsetsFrom (BPLIST_MAGIC ++ BPLIST_VERSION).length (ser.objects.map encode) =
      offsets := hoffsets
  rw [hoffs] at hlen ⊢
  -- the file is longer than its table of offsets
  have hnum : ser.objects.length < 2 ^ 64 := by
    rw [length_append, length_append, length_flatMap_of_const (fun x => length_beTail x hoff8),
      ← hoffsets, length_offsetsFrom, length_map] at hlen
    have hmul := Nat.mul_le_mul_left ser.objects.length hoff1
    omega
  have hbody64 : body.length < 2 ^ 64 := by
    rw [append_assoc, length_append] at hlen
    omega
  have hentries : ser.objects.map encode = ser.entries.map (Entry.encode build narrow refSize) := by
    rw [SerializeS.entries, List.map_map]
    refine List.map_congr_left fun node hnode => ?_
    have henc := hser.writeNode_eq_encode build narrow href8 hnum (hser.objects node hnode)
    rw [hwrite node hnode] at henc
    exact some.inj henc
  have htable : tableBody build narrow refSize ser.entries = body := by
    rw [tableBody, ← hentries, hbody]
  have htableOffs : tableOffsets build narrow refSize ser.entries = offsets := by
    rw [tableOffsets, ← hentries, hoffsets]
  have hbytes : offsets.flatMap (fun offset => beTail offset (getNeededBytes body.length)) =
      offsets.flatMap (beBytes (getNeededBytes body.length)) := by
    refine flatMap_congr fun x hx => beTail_eq ?_ hoff8
    have hle := offsetsFrom_le (hoffsets ▸ hx)
    rw [← hbody, length_append] at hbody64
    exact Nat.lt_of_le_of_lt hle hbody64
  refine ⟨getNeededBytes body.length, refSize, by rw [htable], rfl, ?_⟩
  rw [encodeTable, htable, htableOffs, tableTrailer, hbytes, leBytes_bswap64 hnum,
    leBytes_bswap64 (by omega), leBytes_bswap64 hbody64, SerializeS.entries, length_map]
  simp only [append_assoc]
  rfl

end Table

/-! ## Reading it -/

/-- In the build of `configure` every width that `get_needed_bytes` finds is read, and in each build
those that it finds for a small file. -/
theorem readable_getNeededBytes {build : Build} {x m : Nat}
    (hbuild : build = .configured ∨ m < 2 ^ 16) (hx : x ≤ m) (hm : m < 2 ^ 64) :
    Readable build (getNeededBytes m) x := by
  rw [Readable]
  rcases getNeededBytes_cases hm with ⟨h, hlt⟩ | ⟨h, hlt⟩ | ⟨h, hlt⟩ | ⟨h, hlt⟩ | ⟨h, hlt⟩
  · rw [h, uintToHost_direct _ (length_beBytes _ _) (by omega), beVal_beBytes (by omega)]
  · rw [h, uintToHost_direct _ (length_beBytes _ _) (by omega), beVal_beBytes (by omega)]
  · rcases hbuild with rfl | hsmall
    · rw [h, uintToHost_three (length_beBytes _ _), beVal_beBytes (by omega)]
    · exfalso
      unfold getNeededBytes at h
      split_ifs at h <;> omega
  · rw [h, uintToHost_direct _ (length_beBytes _ _) (by omega), beVal_beBytes (by omega)]
  · rw [h, uintToHost_direct _ (length_beBytes _ _) (by omega), beVal_beBytes (by omega)]

theorem Call.Good.recursion_eq_false {graph : Nat → Option Obj} {root n : Nat} {c : Call}
    (h : c.Good graph root n) (hground : Grounded graph [] root) : c.recursion = false := by
  have hreach : ReflTransGen (Refers graph) root c.index := by
    rcases hpath : c.path with _ | ⟨x, rest⟩
    · have hhead := h.head
      rw [hpath] at hhead
      cases hhead
      exact .refl
    · have hhead := h.head
      rw [hpath] at hhead
      cases hhead
      exact (transGen_of_isChain h.chain (by rw [hpath]; exact mem_cons_self)).to_reflTransGen
  cases hrec : c.recursion with
  | false => rfl
  | true => exact absurd (h.cycle hrec) (hground c.index hreach).2

/-- What is read from the file of a tree: in the build of `configure` unless the file is too long
for the reader, and in each build if its offsets fit in two bytes. -/
theorem plistFromBin_readBack (build : Build) (narrow : Narrow) (widen : Nat → Nat)
    {root : Node} (hok : ∀ m ∈ root.nodes, m.Stored narrow widen) (haddr : root.addresses.Nodup) :
    ∃ bytes, plistToBin build narrow root = some bytes ∧
      (bytes.length < 2 ^ 32 → build = .configured ∨ bytes.length < 2 ^ 16 →
        ∀ base < 2 ^ 63, ∃ calls, (root.readBack.isSome → ∀ c ∈ calls, c.recursion = false) ∧
          ∀ fuel > bytes.length, plistFromBin ⟨.machine, build, ⟨base, bytes⟩, widen⟩ fuel =
            .ok (root.readBack, calls)) := by
  obtain ⟨ser, hrun, hser⟩ := serializePlist_serialized (fun m hm => (hok m hm).hash) haddr
  obtain ⟨bytes, hbytes, htable⟩ := hser.plistToBin_eq build narrow hrun
  refine ⟨bytes, hbytes, fun hlen hbuild base hbase => ?_⟩
  obtain ⟨offsetSize, refSize, hoff, href, heq⟩ := htable (by omega)
  have hnum : ser.entries.length = ser.objects.length := by rw [SerializeS.entries, length_map]
  have hfirst : 0 < ser.objects.length := (List.getElem?_eq_some_iff.mp hser.first).1
  have hsizes : (tableBody build narrow refSize ser.entries).length ≤ bytes.length ∧
      ser.objects.length ≤ bytes.length := by
    rw [heq, encodeTable, length_append, length_append,
      length_flatMap_of_const (fun x => length_beBytes _ x), tableOffsets, length_offsetsFrom,
      length_map, hnum]
    have hmul := Nat.mul_le_mul_left ser.objects.length (getNeededBytes_le
      (tableBody build narrow refSize ser.entries).length).1
    rw [← hoff] at hmul
    omega
  have hoffBounds := getNeededBytes_le (tableBody build narrow refSize ser.entries).length
  have hrefBounds := getNeededBytes_le ser.objects.length
  rw [← hoff] at hoffBounds
  rw [← href] at hrefBounds
  -- the reader finds the table
  have hentry : ∀ e ∈ ser.entries, e.Stored narrow widen ser.entries.length := by
    intro e he
    obtain ⟨node, hnode, rfl⟩ := mem_map.mp he
    rw [hnum]
    exact hser.entry_stored hok (hser.objects node hnode)
  obtain ⟨l, hopen, hgraph⟩ := openLayout_encodeTable
    ⟨hoffBounds.1, by omega⟩ ⟨hrefBounds.1, by omega⟩ (by omega) (heq ▸ hlen) hentry
    (fun x hx => by
      rw [hoff]
      refine readable_getNeededBytes (hbuild.imp_right (by omega)) ?_ (by omega)
      rw [tableBody, length_append]
      exact offsetsFrom_le hx)
    (fun e he r hr => by
      obtain ⟨node, hnode, rfl⟩ := mem_map.mp he
      rw [href]
      exact readable_getNeededBytes (hbuild.imp_right (by omega))
        (Nat.le_of_lt (hser.ref_lt (hser.objects node hnode) hr)) (by omega))
  rw [← heq] at hopen
  obtain ⟨hvalid, -, -, hlbytes, -⟩ := openLayout_valid hlen hopen
  have hle := hvalid.numObjects_le
  rw [hlbytes] at hle
  -- and what is in it
  obtain ⟨result, st, hwalk, hlog, hground⟩ := walkAt_root_returns l.graph_lt 0
  have hdecode := hser.decode_object haddr hok root 0 hser.first
  have hres : result = root.readBack := by
    refine Option.ext fun t => ?_
    rw [← hdecode t, ← hgraph]
    constructor
    · intro h
      exact ⟨_, decode_of_walkAt l.graph _ [] 0 t _ st (by rw [hwalk _ (Nat.lt_succ_self _), h])⟩
    · rintro ⟨f, hf⟩
      have hpath : ∀ j ∈ ([] : List Nat), decode l.graph f j = none := fun j hj => by cases hj
      obtain ⟨st', hyield, -⟩ := walkAt_of_decode (Nat.le_max_left f (l.numObjects + 1)) hpath 0 t
        ⟨0, [], []⟩ hf ⟨rfl, rfl⟩
      rw [hwalk _ (by omega)] at hyield
      cases hyield
      rfl
  refine ⟨st.calls, fun hsome c hc => (hlog c hc).recursion_eq_false (hground (hres ▸ hsome)),
    fun fuel hfuel => ?_⟩
  rw [plistFromBin_eq_walkBin hlen (.inl rfl) hbase, walkBin, hopen]
  dsimp only
  rw [hwalk fuel (by omega), hres]
  rfl

theorem plistFromBin_of_plistToBin (build : Build) (narrow : Narrow) (widen : Nat → Nat)
    {root : Node} (hok : root.ValueOk) (haddr : root.addresses.Nodup) :
    ∃ bytes, plistToBin build narrow root = some bytes ∧
      (bytes.length < 2 ^ 32 → build = .configured ∨ bytes.length < 2 ^ 16 →
        ∀ base < 2 ^ 63, ∃ calls, (∀ c ∈ calls, c.recursion = false) ∧
          ∀ fuel > bytes.length, plistFromBin ⟨.machine, build, ⟨base, bytes⟩, widen⟩ fuel =
            .ok (some root.toPlist, calls)) := by
  obtain ⟨bytes, hbytes, hread⟩ :=
    plistFromBin_readBack build narrow widen hok.stored haddr
  rw [hok.readBack_eq] at hread
  refine ⟨bytes, hbytes, fun hlen hbuild base hbase => ?_⟩
  obtain ⟨calls, hrec, hcalls⟩ := hread hlen hbuild base hbase
  exact ⟨calls, hrec rfl, hcalls⟩

end IDeviceStack.Libplist.Bplist
