/-
# `Libplist.Dict` — what the dictionary functions do

A dictionary is a container whose children alternate between key nodes and
values: `Binding`s, in the order of first insertion (`DictShape`).  It may have a
hash table from the data of its key nodes to its values, and then the table holds
exactly those pairs (`DictRefines`).

`plist_dict_get_item` is the same function of the bindings whether it scans the
children or asks the table (`DictRefines.getItem`).  A change first rearranges
the children and then lets the table follow; between the two the table still
points at a value that has been freed, and nobody looks.
-/
import IDeviceStack.Libplist.Container
import IDeviceStack.Libplist.HashIndex
import Mathlib.Data.List.Find

namespace IDeviceStack.Libplist

open Lib Cnary List Option

/-- A key node, its key, and the value that follows it. -/
structure Binding where
  keyNode : Nat
  key : List UInt8
  item : Item

/-- The children of a dictionary. -/
def dictItems (bs : List Binding) : List Item :=
  bs.flatMap fun b => [(b.keyNode, [b.keyNode]), b.item]

@[simp] theorem dictItems_nil : dictItems [] = [] := rfl

@[simp] theorem dictItems_cons (b : Binding) (bs : List Binding) :
    dictItems (b :: bs) = (b.keyNode, [b.keyNode]) :: b.item :: dictItems bs := rfl

@[simp] theorem dictItems_append (bs cs : List Binding) :
    dictItems (bs ++ cs) = dictItems bs ++ dictItems cs := flatMap_append

@[simp] theorem length_dictItems (bs : List Binding) : (dictItems bs).length = 2 * bs.length := by
  induction bs with
  | nil => rfl
  | cons b bs ih =>
    rw [dictItems_cons, length_cons, length_cons, length_cons, ih]
    omega

/-- The children alternate between keys and values. -/
structure DictNodes (h : PHeap) (p : Nat) (bs : List Binding) : Prop where
  holds : Holds h p (.list p) (dictItems bs)
  keys : ∀ b ∈ bs, ∃ n, h.data b.keyNode = some (some ⟨.scalar (.key b.key), n⟩)

/-- The children alternate between keys and values, and the keys are distinct. -/
structure DictShape (h : PHeap) (p : Nat) (bs : List Binding) : Prop where
  holds : Holds h p (.list p) (dictItems bs)
  keys : ∀ b ∈ bs, h.data b.keyNode = some (some ⟨.scalar (.key b.key), b.key.length⟩)
  nulFree : ∀ b ∈ bs, NulFree b.key
  distinct : (bs.map Binding.key).Nodup

/-- What the hash table should hold. -/
def tablePairs (bs : List Binding) : List (Nat × Ref) :=
  bs.map fun b => (b.keyNode, .node b.item.1)

/-- The key that the data of a key node stands for. -/
def keyName (h : PHeap) (k : Nat) : List UInt8 := ((keyData h k).map Prod.fst).getD []

/-- `dict_key_hash` of a whole string. -/
def keyHash (s : List UInt8) : BitVec 32 :=
  s.foldl (fun hash c => ((hash <<< 5) + hash) + c.toBitVec.signExtend 32) 5381#32

/-- The dictionary `p` stands for `bs`; it has a hash table if `indexed`. -/
structure DictRefines (h : PHeap) (p : Nat) (bs : List Binding) (indexed : Bool) : Prop where
  shape : DictShape h p bs
  table : ∃ ht len, h.data p = some (some ⟨.dict ht, len⟩) ∧ ht.isSome = indexed ∧
    ∀ T, ht = some T → Indexes keyHash (keyName h) T (tablePairs bs)

/-! ## Keys -/

theorem dictKeyHash_eq (s : List UInt8) : dictKeyHash (s, s.length) = some (keyHash s) := by
  simp [dictKeyHash, keyHash]

variable {h : PHeap} {k : Nat} {s : List UInt8}

theorem keyData_of_data {n : Nat} (hd : h.data k = some (some ⟨.scalar (.key s), n⟩)) :
    keyData h k = some (s, n) := by
  have hget : plistGetData h k = some (some ⟨.scalar (.key s), n⟩) := hd
  simp only [keyData, hget, bind_eq_bind, bind_some]

theorem keyData_congr {h' : PHeap} (hd : h'.data k = h.data k) : keyData h' k = keyData h k := by
  have hget : plistGetData h' k = plistGetData h k := hd
  simp only [keyData, hget]

theorem dictKeyCompare_eq {x : List UInt8} (hs : NulFree s) (hx : NulFree x) :
    dictKeyCompare (s, s.length) (x, x.length) = decide (s = x) := by
  unfold dictKeyCompare streq
  rw [cstr_of_nulFree hs, cstr_of_nulFree hx]
  by_cases hlen : s.length = x.length
  · by_cases heq : s = x <;> simp [heq, hlen]
  · have heq : s ≠ x := fun h => hlen (congrArg List.length h)
    simp [hlen, heq]

theorem strlen_of_nulFree (hs : NulFree s) : strlen s = s.length := by
  rw [strlen, cstr_of_nulFree hs]

section Shape

variable {h h' : PHeap} {p : Nat} {bs : List Binding}

variable {b : Binding}

theorem DictShape.keyName_eq (hs : DictShape h p bs) (hb : b ∈ bs) :
    keyName h b.keyNode = b.key := by
  rw [keyName, keyData_of_data (hs.keys b hb)]
  rfl

theorem DictShape.compares (hs : DictShape h p bs) {x : List UInt8} (hx : NulFree x) :
    ∀ q ∈ tablePairs bs, compareWith h (x, x.length) q.1 = some (decide (keyName h q.1 = x)) := by
  intro q hq
  obtain ⟨b, hb, rfl⟩ := mem_map.mp hq
  rw [compareWith, keyData_of_data (hs.keys b hb), map_some,
    dictKeyCompare_eq (hs.nulFree b hb) hx, hs.keyName_eq hb]

theorem DictShape.names (hs : DictShape h p bs) :
    (tablePairs bs).map (fun q => keyName h q.1) = bs.map Binding.key := by
  rw [tablePairs, List.map_map]
  exact List.map_congr_left fun b hb => hs.keyName_eq hb

theorem mem_dictItems_key (hb : b ∈ bs) : b.keyNode ∈ foot (dictItems bs) :=
  mem_foot (t := (b.keyNode, [b.keyNode])) (mem_flatMap.mpr ⟨b, hb, by simp⟩) (by simp)

theorem foot_binding (l r : List Binding) (b : Binding) :
    (foot (dictItems (l ++ b :: r))).Perm ((b.keyNode :: b.item.2) ++ foot (dictItems (l ++ r))) := by
  simp only [dictItems_append, dictItems_cons, foot_append, foot_cons]
  simpa using perm_append_comm_assoc (foot (dictItems l)) (b.keyNode :: b.item.2)
    (foot (dictItems r))

theorem DictShape.nodes (hs : DictShape h p bs) : DictNodes h p bs :=
  ⟨hs.holds, fun b hb => ⟨b.key.length, hs.keys b hb⟩⟩

theorem DictNodes.key_out {l r : List Binding} (hs : DictNodes h p (l ++ b :: r)) :
    b.keyNode ∉ b.item.2 ∧ p ∉ b.keyNode :: b.item.2 ∧
      ∀ c ∈ l ++ r, c.keyNode ∉ b.keyNode :: b.item.2 := by
  have hnd := ((foot_binding l r b).cons p).nodup_iff.mp hs.holds.nodup
  rw [nodup_cons, mem_append, not_or, nodup_append] at hnd
  obtain ⟨⟨hp, -⟩, hb, -, hdisj⟩ := hnd
  refine ⟨(nodup_cons.mp hb).1, hp, fun c hc hmem => ?_⟩
  exact hdisj c.keyNode hmem c.keyNode (mem_dictItems_key hc) rfl

theorem key_ne_of_distinct {l r : List Binding} (hdis : ((l ++ b :: r).map Binding.key).Nodup)
    {c : Binding} (hc : c ∈ l ++ r) : c.key ≠ b.key := by
  have hperm : ((l ++ b :: r).map Binding.key).Perm (b.key :: (l ++ r).map Binding.key) :=
    (perm_middle : (l ++ b :: r).Perm (b :: (l ++ r))).map Binding.key
  have hnd := hperm.nodup_iff.mp hdis
  intro heq
  exact (nodup_cons.mp hnd).1 (heq ▸ mem_map_of_mem hc)

theorem DictShape.of_cells (hs : DictShape h p bs)
    (heq : ∀ b ∈ p :: foot (dictItems bs), h'.cells b = h.cells b) : DictShape h' p bs := by
  refine ⟨hs.holds.of_cells heq, fun b hb => ?_, hs.nulFree, hs.distinct⟩
  rw [Heap.data, heq _ (mem_cons_of_mem p (mem_dictItems_key hb))]
  exact hs.keys b hb

theorem DictRefines.of_cells {indexed : Bool} (hr : DictRefines h p bs indexed)
    (heq : ∀ b ∈ p :: foot (dictItems bs), h'.cells b = h.cells b) :
    DictRefines h' p bs indexed := by
  obtain ⟨ht, len, hd, hix, htab⟩ := hr.table
  refine ⟨hr.shape.of_cells heq, ht, len, ?_, hix, fun T hT => (htab T hT).congr ?_⟩
  · rw [Heap.data, heq p mem_cons_self]
    exact hd
  · intro q hq
    obtain ⟨b, hb, rfl⟩ := mem_map.mp hq
    rw [(hr.shape.of_cells heq).keyName_eq hb, hr.shape.keyName_eq hb]

end Shape

/-! ## `plist_dict_get_item` -/

variable {bs : List Binding} {p len : Nat} {ht : Option DictTable}

/-- The item under a key, as a pointer. -/
def lookupRef (bs : List Binding) (key : List UInt8) : Ref :=
  match bs.find? fun b => b.key = key with
  | some b => .node b.item.1
  | none => .null

variable {b : Binding} {key : List UInt8}

theorem lookupRef_cons_of_ne (h : b.key ≠ key) : lookupRef (b :: bs) key = lookupRef bs key := by
  simp [lookupRef, h]

theorem nodeNextSibling_of_links {a : Nat} {e b : Ref} (hl : h.links a = some (e, b)) :
    nodeNextSibling h (.node a) = some e :=
  getNext_of_links hl

theorem dictItems_links {c : Binding} {b : Ref}
    (hseg : Seg .node h.links b .null (roots (dictItems (c :: bs)))) :
    h.links c.keyNode = some (.node c.item.1, b) ∧
      h.links c.item.1 = some (headRef .node (roots (dictItems bs)) .null, .node c.keyNode) ∧
      Seg .node h.links (.node c.item.1) .null (roots (dictItems bs)) :=
  hseg

/-- The first child that reads like `x`. -/
def firstFor (x : List UInt8) (bs : List Binding) : Option Binding :=
  bs.find? fun b => cstr b.key = x

/-- A pointer to the item. -/
def itemRef (b : Option Binding) : Option Ref := b.map fun b => .node b.item.1

theorem firstFor_cons (x : List UInt8) (b : Binding) (bs : List Binding) :
    firstFor x (b :: bs) = if cstr b.key = x then some b else firstFor x bs := by
  rw [firstFor, List.find?_cons]
  by_cases hb : cstr b.key = x <;> simp [hb, firstFor]

theorem scanDict_first {key : List UInt8} (hkey : NulFree key) {b : Ref}
    (hseg : Seg .node h.links b .null (roots (dictItems bs)))
    (hkeys : ∀ b ∈ bs, ∃ n, h.data b.keyNode = some (some ⟨.scalar (.key b.key), n⟩)) {fuel : Nat}
    (hfuel : bs.length < fuel) :
    scanDict h key fuel (headRef .node (roots (dictItems bs)) .null) =
      some ((itemRef (firstFor key bs)).getD .null) := by
  induction bs generalizing b fuel with
  | nil =>
    obtain ⟨fuel, rfl⟩ : ∃ k, fuel = k + 1 := ⟨fuel - 1, by simp at hfuel; omega⟩
    rfl
  | cons c bs ih =>
    rw [length_cons] at hfuel
    obtain ⟨fuel, rfl⟩ : ∃ k, fuel = k + 1 := ⟨fuel - 1, by omega⟩
    obtain ⟨hk, hv, hrest⟩ := dictItems_links hseg
    obtain ⟨n, hck⟩ := hkeys c mem_cons_self
    have htype : plistGetNodeType h c.keyNode = some .key := plistGetNodeType_of_data hck
    have hsame : streq key c.key = decide (cstr c.key = key) := by
      unfold streq
      rw [cstr_of_nulFree hkey]
      by_cases heq : cstr c.key = key
      · simp [heq]
      · simp [heq, Ne.symm heq]
    have hrun := ih hrest (fun b hb => hkeys b (mem_cons_of_mem c hb))
      (show bs.length < fuel by omega)
    simp only [dictItems_cons, roots_cons, headRef_cons, scanDict, htype, keyData_of_data hck,
      bind_eq_bind, bind_some, if_true, nodeNextSibling_of_links hk,
      nodeNextSibling_of_links hv, hsame, decide_eq_true_eq, hrun, firstFor_cons]
    by_cases heq : cstr c.key = key
    · rw [if_pos heq, if_pos heq]
      rfl
    · rw [if_neg heq, if_neg heq]

theorem scanDict_eq (hkey : NulFree key) {b : Ref}
    (hseg : Seg .node h.links b .null (roots (dictItems bs)))
    (hkeys : ∀ b ∈ bs, h.data b.keyNode = some (some ⟨.scalar (.key b.key), b.key.length⟩))
    (hnul : ∀ b ∈ bs, NulFree b.key) {fuel : Nat} (hfuel : bs.length < fuel) :
    scanDict h key fuel (headRef .node (roots (dictItems bs)) .null) = some (lookupRef bs key) := by
  have hfirst : (bs.find? fun b => b.key = key) = firstFor key bs :=
    List.find?_congr fun b hb => by rw [cstr_of_nulFree (hnul b hb)]
  rw [scanDict_first hkey hseg (fun b hb => ⟨_, hkeys b hb⟩) hfuel, lookupRef, hfirst]
  cases firstFor key bs <;> rfl

theorem find_tablePairs (bs : List Binding) (f : Nat → List UInt8) (key : List UInt8)
    (hf : ∀ b ∈ bs, f b.keyNode = b.key) :
    (((tablePairs bs).find? fun q => f q.1 = key).map Prod.snd).getD .null = lookupRef bs key := by
  induction bs with
  | nil => rfl
  | cons b bs ih =>
    have hb := hf b mem_cons_self
    by_cases heq : b.key = key
    · simp [tablePairs, lookupRef, hb, heq]
    · rw [lookupRef_cons_of_ne heq, ← ih fun c hc => hf c (mem_cons_of_mem b hc), tablePairs,
        map_cons, List.find?_cons_of_neg (by simpa [hb] using heq), tablePairs]

theorem DictRefines.getItem {indexed : Bool} (hr : DictRefines h p bs indexed)
    (hkey : NulFree key) : plistDictGetItem h p key = some (lookupRef bs key) := by
  obtain ⟨ht, len, hd, -, htab⟩ := hr.table
  have hget : plistGetData h p = some (some ⟨.dict ht, len⟩) := hd
  have htype : plistGetNodeType h p = some .dict := plistGetNodeType_of_data hd
  have hs := hr.shape
  cases ht with
  | none =>
    obtain ⟨np, hp, hlist⟩ := cell_of_list hs.holds.children.list
    have hfirst : nodeFirstChild h p = some (headRef .node (roots (dictItems bs)) .null) := by
      simp [nodeFirstChild, hp, hlist]
    have hlen := hs.holds.children.toChain.length_lt
    rw [roots, length_map, length_dictItems] at hlen
    simp only [plistDictGetItem, htype, dictHashtable, hget, bind_eq_bind, bind_some,
      if_true, hfirst]
    exact scanDict_eq hkey hs.holds.children.seg hs.keys hs.nulFree (by omega)
  | some T =>
    have hlook := (htab T rfl).lookup (by rw [hs.names]; exact hs.distinct) (hs.compares hkey)
    simp only [plistDictGetItem, htype, dictHashtable, hget, bind_eq_bind, bind_some,
      if_true, strlen_of_nulFree hkey, dictKeyHash_eq, hlook]
    rw [find_tablePairs bs (keyName h) key fun b hb => hs.keyName_eq hb]

/-! ## The table follows -/

theorem DictNodes.setHashtable (hs : DictNodes h p bs) (hd : h.data p = some (some ⟨.dict ht, len⟩))
    (ht' : Option DictTable) :
    ∃ h', setHashtable h p ht' = some h' ∧ DictNodes h' p bs ∧
      h'.data p = some (some ⟨.dict ht', len⟩) ∧ (∀ b, b ≠ p → h'.cells b = h.cells b) ∧
      h'.top = h.top := by
  have hp := hs.holds.children.toChain.isSome
  have hcells : ∀ b, b ≠ p → (h.adjust p fun n =>
      { n with data := n.data.map fun d => { d with value := .dict ht' } }).cells b = h.cells b :=
    fun b hb => if_neg hb
  refine ⟨h.adjust p fun n => { n with data := n.data.map fun d => { d with value := .dict ht' } },
    Heap.modify_eq hp _, ?_, ?_, hcells, rfl⟩
  · have hpfoot := (nodup_cons.mp hs.holds.nodup).1
    have hfoot : ∀ b ∈ foot (dictItems bs), b ≠ p := by
      rintro b hb rfl
      exact hpfoot hb
    have hroot : ∀ x ∈ roots (dictItems bs), x ≠ p := fun x hx => hs.holds.root_ne hx
    have hc := hs.holds.children
    refine ⟨⟨⟨hc.toChain.congr ?_ ?_ ?_, ?_⟩, hs.holds.forest.of_cells ?_, hs.holds.nodup⟩, ?_⟩
    · exact Heap.map_adjust (by intro n; rfl) p
    · intro x hx
      simp only [Heap.links, hcells x (hroot x hx)]
    · intro x hx
      simp only [Heap.parent, hcells x (hroot x hx)]
    · exact (Heap.map_adjust (by intro n; rfl) p).trans hc.count
    · exact fun b hb => hcells b (hfoot b hb)
    · intro b hb
      rw [Heap.data, hcells _ (hfoot _ (mem_dictItems_key hb))]
      exact hs.keys b hb
  · rw [Heap.data, map_eq_some_iff] at hd
    obtain ⟨n, hn, hnd⟩ := hd
    simp [Heap.data, Heap.cells_adjust, hn, hnd]

theorem DictShape.of_nodes {h' : PHeap} (hs : DictShape h p bs) (hn : DictNodes h' p bs)
    (hdata : ∀ b ∈ bs, h'.data b.keyNode = h.data b.keyNode) : DictShape h' p bs :=
  ⟨hn.holds, fun b hb => (hdata b hb).trans (hs.keys b hb), hs.nulFree, hs.distinct⟩

theorem DictShape.setHashtable (hs : DictShape h p bs) (hd : h.data p = some (some ⟨.dict ht, len⟩))
    (ht' : Option DictTable) :
    ∃ h', setHashtable h p ht' = some h' ∧ DictShape h' p bs ∧
      h'.data p = some (some ⟨.dict ht', len⟩) ∧ (∀ b, b ≠ p → h'.cells b = h.cells b) ∧
      h'.top = h.top := by
  obtain ⟨h', hrun, hn, hd', hcells, htop⟩ := hs.nodes.setHashtable hd ht'
  refine ⟨h', hrun, hs.of_nodes hn fun b hb => ?_, hd', hcells, htop⟩
  rw [Heap.data, hcells]
  · rfl
  · rintro rfl
    exact (nodup_cons.mp hs.holds.nodup).1 (mem_dictItems_key hb)

theorem DictShape.tableInsert (hs : DictShape h p bs) (hb : b ∈ bs) {T : DictTable} {v : Ref} :
    dictTableInsert h T b.keyNode v =
      hashTableInsert T (keyHash b.key) (compareWith h (b.key, b.key.length)) b.keyNode v := by
  have hget : plistGetData h b.keyNode = some (some ⟨.scalar (.key b.key), b.key.length⟩) :=
    hs.keys b hb
  simp only [dictTableInsert, hget, bind_eq_bind, bind_some,
    keyData_of_data (hs.keys b hb), dictKeyHash_eq]

theorem DictShape.indexDict {done todo : List Binding} (hs : DictShape h p (done ++ todo)) {b : Ref}
    (hseg : Seg .node h.links b .null (roots (dictItems todo))) {T : DictTable}
    (hT : Indexes keyHash (keyName h) T (tablePairs done)) {fuel : Nat}
    (hfuel : todo.length < fuel) :
    ∃ T', indexDict h fuel (headRef .node (roots (dictItems todo)) .null) T = some T' ∧
      Indexes keyHash (keyName h) T' (tablePairs (done ++ todo)) := by
  induction todo generalizing done b T fuel with
  | nil =>
    obtain ⟨fuel, rfl⟩ : ∃ k, fuel = k + 1 := ⟨fuel - 1, by simp at hfuel; omega⟩
    exact ⟨T, rfl, by rwa [append_nil]⟩
  | cons c todo ih =>
    rw [length_cons] at hfuel
    obtain ⟨fuel, rfl⟩ : ∃ k, fuel = k + 1 := ⟨fuel - 1, by omega⟩
    obtain ⟨hk, hv, hrest⟩ := dictItems_links hseg
    have hcmem : c ∈ done ++ c :: todo := by simp
    have hname := hs.keyName_eq hcmem
    have hcmp : ∀ q ∈ tablePairs done, compareWith h (c.key, c.key.length) q.1 =
        some (decide (keyName h q.1 = keyName h c.keyNode)) := by
      intro q hq
      rw [hname]
      refine hs.compares (hs.nulFree c hcmem) q ?_
      rw [tablePairs, map_append]
      exact mem_append_left _ hq
    have habs : ∀ q ∈ tablePairs done, keyName h q.1 ≠ keyName h c.keyNode := by
      intro q hq
      obtain ⟨d, hd, rfl⟩ := mem_map.mp hq
      rw [hname, hs.keyName_eq (mem_append_left _ hd)]
      have hdis := hs.distinct
      rw [map_append, nodup_append] at hdis
      exact hdis.2.2 _ (mem_map_of_mem hd) _ (by simp)
    obtain ⟨T₁, hins, hT1⟩ := hT.insert_absent (.node c.item.1) hcmp habs
    rw [hname] at hins
    have hT1' : Indexes keyHash (keyName h) T₁ (tablePairs (done ++ [c])) :=
      hT1.of_mem_iff fun q => by simp [tablePairs, or_comm]
    have hs' : DictShape h p ((done ++ [c]) ++ todo) := by simpa using hs
    obtain ⟨T', hrun, hT'⟩ := ih hs' hrest hT1' (show todo.length < fuel by omega)
    refine ⟨T', ?_, by simpa using hT'⟩
    simp only [dictItems_cons, roots_cons, headRef_cons, Libplist.indexDict,
      nodeNextSibling_of_links hk, nodeNextSibling_of_links hv, hs.tableInsert hcmem, hins,
      bind_eq_bind, bind_some]
    exact hrun

theorem DictShape.dictIndex (hs : DictShape h p bs)
    (hd : h.data p = some (some ⟨.dict ht, len⟩))
    {keyNode item : Nat}
    (hins : ∀ T, ht = some T → ∃ T', dictTableInsert h T keyNode (.node item) = some T' ∧
      Indexes keyHash (keyName h) T' (tablePairs bs)) :
    ∃ h', dictIndex h p keyNode item = some h' ∧
      DictRefines h' p bs (ht.isSome || decide (2 * bs.length > 500)) := by
  have hget : plistGetData h p = some (some ⟨.dict ht, len⟩) := hd
  have hkeys : ∀ {h' : PHeap}, DictShape h' p bs → ∀ q ∈ tablePairs bs, keyName h' q.1 = keyName h q.1 := by
    intro h' hs' q hq
    obtain ⟨b, hb, rfl⟩ := mem_map.mp hq
    rw [hs'.keyName_eq hb, hs.keyName_eq hb]
  cases ht with
  | some T =>
    obtain ⟨T', hT', hix⟩ := hins T rfl
    obtain ⟨h', hset, hs', hd', -, -⟩ := hs.setHashtable hd (some T')
    refine ⟨h', ?_, hs', some T', len, hd', by simp, ?_⟩
    · simp only [Libplist.dictIndex, dictHashtable, hget, bind_eq_bind, bind_some, hT', hset]
    · rintro _ ⟨⟩
      exact hix.congr (hkeys hs')
  | none =>
    obtain ⟨np, hp, hlist⟩ := cell_of_list hs.holds.children.list
    have hcount : nodeNChildren h p = some (2 * bs.length) := by
      have hc := hs.holds.children.count
      rw [roots, length_map, length_dictItems] at hc
      exact hc
    by_cases hbig : 2 * bs.length > 500
    · have hlen := hs.holds.children.toChain.length_lt
      rw [roots, length_map, length_dictItems] at hlen
      have hfirst : nodeFirstChild h p = some (headRef .node (roots (dictItems bs)) .null) := by
        simp [nodeFirstChild, hp, hlist]
      have hnew : Indexes keyHash (keyName h) hashTableNew (tablePairs []) := Indexes.new
      obtain ⟨T', hrun, hix⟩ := DictShape.indexDict (show DictShape h p ([] ++ bs) from hs)
        hs.holds.children.seg hnew (show bs.length < h.top + 1 by omega)
      obtain ⟨h', hset, hs', hd', -, -⟩ := hs.setHashtable hd (some T')
      refine ⟨h', ?_, hs', some T', len, hd', by simp [hbig], ?_⟩
      · simp only [Libplist.dictIndex, dictHashtable, hget, hcount, hfirst, hrun, hset, if_pos hbig,
          bind_eq_bind, bind_some]
      · rintro _ ⟨⟩
        exact hix.congr (hkeys hs')
    · refine ⟨h, ?_, hs, none, len, hd, by simp [hbig], by simp⟩
      simp only [Libplist.dictIndex, dictHashtable, hget, hcount, if_neg hbig, bind_eq_bind,
        bind_some]

/-! ## `plist_dict_set_item` -/

theorem find_split (hfind : bs.find? (fun b => b.key = key) = some b) :
    ∃ l r, bs = l ++ b :: r ∧ b.key = key := by
  obtain ⟨hb, l, r, heq, -⟩ := List.find?_eq_some_iff_append.mp hfind
  exact ⟨l, r, heq, by simpa using hb⟩

theorem prev_of_children {a : Nat} {first : Ref} {l r : List Nat}
    (hc : Children h p first (l ++ k :: a :: r)) :
    nodePrevSibling h (.node a) = some (.node k) := by
  have hseg := (seg_append.mp hc.seg).2.2.1
  simp only [Heap.links, map_eq_some_iff, Prod.mk.injEq] at hseg
  obtain ⟨n, hn, -, hprev⟩ := hseg
  simp [nodePrevSibling, hn, hprev]

theorem tablePairs_replace {l r : List Binding} {f : Nat → List UInt8} {t : Item}
    (hf : ∀ c ∈ l ++ b :: r, f c.keyNode = c.key) (hdis : ((l ++ b :: r).map Binding.key).Nodup) :
    (tablePairs (l ++ b :: r)).map
        (fun q => if f q.1 = f b.keyNode then (q.1, Ref.node t.1) else q) =
      tablePairs (l ++ { b with item := t } :: r) := by
  have hb : f b.keyNode = b.key := hf b (by simp)
  have hsame : ∀ cs : List Binding, (∀ c ∈ cs, c ∈ l ++ r) →
      (tablePairs cs).map (fun q => if f q.1 = f b.keyNode then (q.1, Ref.node t.1) else q) =
        tablePairs cs := by
    intro cs hcs
    refine (map_congr_left fun q hq => ?_).trans (map_id _)
    obtain ⟨c, hc, rfl⟩ := mem_map.mp hq
    have hcm := hcs c hc
    have hcb : f c.keyNode ≠ f b.keyNode := by
      rw [hb, hf c (by simp only [mem_append, mem_cons] at hcm ⊢; exact hcm.imp_right .inr)]
      exact key_ne_of_distinct hdis hcm
    simp only [if_neg hcb, id]
  have hl := hsame l fun c hc => mem_append_left r hc
  have hr := hsame r fun c hc => mem_append_right l hc
  simp only [tablePairs] at hl hr
  simp only [tablePairs, map_append, map_cons, hl, hr, if_true]

theorem mem_replace {l r : List Binding} {c : Binding} {t : Item} :
    (c ∈ l ++ { b with item := t } :: r →
      ∃ d ∈ l ++ b :: r, c.keyNode = d.keyNode ∧ c.key = d.key) ∧
    (c ∈ l ++ b :: r →
      ∃ d ∈ l ++ { b with item := t } :: r, c.keyNode = d.keyNode ∧ c.key = d.key) := by
  simp only [mem_append, mem_cons]
  constructor
  · rintro (hc | rfl | hc)
    · exact ⟨c, .inl hc, rfl, rfl⟩
    · exact ⟨b, .inr (.inl rfl), rfl, rfl⟩
    · exact ⟨c, .inr (.inr hc), rfl, rfl⟩
  · rintro (hc | rfl | hc)
    · exact ⟨c, .inl hc, rfl, rfl⟩
    · exact ⟨_, .inr (.inl rfl), rfl, rfl⟩
    · exact ⟨c, .inr (.inr hc), rfl, rfl⟩

section SetPresent

variable {h h₂ : PHeap} {p : Nat} {l r : List Binding} {b : Binding} {t : Item}

theorem DictNodes.place_present (hs : DictNodes h p (l ++ b :: r))
    (ht : Loose h p (dictItems (l ++ b :: r)) t) :
    ∃ h₁ h₂, plistFree h b.item.1 = some (h₁, some (2 * l.length + 1)) ∧
      nodeInsert h₁ p (2 * l.length + 1) t.1 = some h₂ ∧
      nodePrevSibling h₂ (.node t.1) = some (.node b.keyNode) ∧
      DictNodes h₂ p (l ++ { b with item := t } :: r) ∧
      (∀ c ∈ l ++ b :: r, h₂.data c.keyNode = h.data c.keyNode) ∧ h₂.data p = h.data p := by
  obtain ⟨hbk, hpb, hcout⟩ := hs.key_out
  have hsplit : dictItems (l ++ b :: r) =
      (dictItems l ++ [(b.keyNode, [b.keyNode])]) ++ b.item :: dictItems r := by simp
  have hlen : (dictItems l ++ [(b.keyNode, [b.keyNode])]).length = 2 * l.length + 1 := by simp
  have hnil : (dictItems l ++ [(b.keyNode, [b.keyNode])]) ++ dictItems r ≠ [] := by simp
  -- the old item goes ...
  obtain ⟨h₁, hfree, hh1, hout, hdata, -⟩ :=
    (hsplit ▸ hs.holds : Holds h p (.list p) _).free fun hn => absurd hn hnil
  rw [← hsplit] at hout
  rw [hlen] at hfree
  have hloose : Loose h₁ p ((dictItems l ++ [(b.keyNode, [b.keyNode])]) ++ dictItems r) t := by
    refine ht.of_out hout fun x hx => ?_
    rw [hsplit, foot_append, foot_cons]
    rw [foot_append] at hx
    simp only [mem_append] at hx ⊢
    exact hx.imp_right .inr
  -- ... and the new one takes its place
  obtain ⟨h₂, hins, hh2, hf⟩ := hh1.insert hloose (2 * l.length + 1)
  rw [if_neg hnil, if_neg (by omega), take_left' hlen, drop_left' hlen] at hh2
  have hdata2 : ∀ x, x ∉ b.item.2 → h₂.data x = h.data x := by
    intro x hx
    rw [hf.data, hdata x hx]
  have hkey : ∀ c ∈ l ++ b :: r, h₂.data c.keyNode = h.data c.keyNode := by
    intro c hc
    refine hdata2 c.keyNode fun hmem => ?_
    simp only [mem_append, mem_cons] at hc
    rcases hc with hc | rfl | hc
    · exact hcout c (mem_append_left r hc) (mem_cons_of_mem _ hmem)
    · exact hbk hmem
    · exact hcout c (mem_append_right l hc) (mem_cons_of_mem _ hmem)
  refine ⟨h₁, h₂, hfree, hins, ?_, ⟨by simpa using hh2, fun c hc => ?_⟩, hkey,
    hdata2 p fun hp => hpb (mem_cons_of_mem _ hp)⟩
  · have hc : Children h₂ p (.list p)
        (roots (dictItems l) ++ b.keyNode :: t.1 :: roots (dictItems r)) := by
      simpa using hh2.children
    exact prev_of_children hc
  · obtain ⟨d, hd, hkn, hk⟩ := mem_replace.1 hc
    rw [hkn, hk, hkey d hd]
    exact hs.keys d hd

theorem DictShape.place_present (hs : DictShape h p (l ++ b :: r))
    (ht : Loose h p (dictItems (l ++ b :: r)) t) :
    ∃ h₁ h₂, plistFree h b.item.1 = some (h₁, some (2 * l.length + 1)) ∧
      nodeInsert h₁ p (2 * l.length + 1) t.1 = some h₂ ∧
      nodePrevSibling h₂ (.node t.1) = some (.node b.keyNode) ∧
      DictShape h₂ p (l ++ { b with item := t } :: r) ∧ h₂.data p = h.data p := by
  obtain ⟨h₁, h₂, hfree, hins, hprev, hn, hkey, hdp⟩ := hs.nodes.place_present ht
  refine ⟨h₁, h₂, hfree, hins, hprev, ⟨hn.holds, fun c hc => ?_, fun c hc => ?_, ?_⟩, hdp⟩
  · obtain ⟨d, hd, hkn, hk⟩ := mem_replace.1 hc
    rw [hkn, hk, hkey d hd]
    exact hs.keys d hd
  · obtain ⟨d, hd, -, hk⟩ := mem_replace.1 hc
    exact hk ▸ hs.nulFree d hd
  · simpa using hs.distinct

theorem DictShape.table_present (hs : DictShape h p (l ++ b :: r))
    (hs2 : DictShape h₂ p (l ++ { b with item := t } :: r)) {T : DictTable}
    (hT : Indexes keyHash (keyName h) T (tablePairs (l ++ b :: r))) :
    ∃ T', dictTableInsert h₂ T b.keyNode (.node t.1) = some T' ∧
      Indexes keyHash (keyName h₂) T' (tablePairs (l ++ { b with item := t } :: r)) := by
  have hb : ({ b with item := t } : Binding) ∈ l ++ { b with item := t } :: r := by simp
  have hname : ∀ c ∈ l ++ b :: r, keyName h₂ c.keyNode = c.key := by
    intro c hc
    obtain ⟨d, hd, hkn, hk⟩ := mem_replace.2 hc
    rw [hkn, hk]
    exact hs2.keyName_eq hd
  have hT2 : Indexes keyHash (keyName h₂) T (tablePairs (l ++ b :: r)) := by
    refine hT.congr fun q hq => ?_
    obtain ⟨c, hc, rfl⟩ := mem_map.mp hq
    rw [hname c hc, hs.keyName_eq hc]
  have hcmp : ∀ q ∈ tablePairs (l ++ b :: r), compareWith h₂ (b.key, b.key.length) q.1 =
      some (decide (keyName h₂ q.1 = keyName h₂ b.keyNode)) := by
    intro q hq
    obtain ⟨c, hc, rfl⟩ := mem_map.mp hq
    obtain ⟨d, hd, hkn, -⟩ := mem_replace.2 hc
    rw [hname b (by simp), hkn]
    exact hs2.compares (hs.nulFree b (by simp)) (d.keyNode, .node d.item.1) (mem_map_of_mem hd)
  obtain ⟨T', hrun, hT'⟩ := hT2.insert_present (.node t.1) hcmp
    ⟨_, mem_map_of_mem (mem_append_right l mem_cons_self), rfl⟩
  rw [tablePairs_replace hname hs.distinct] at hT'
  rw [hname b (by simp)] at hrun
  exact ⟨T', (hs2.tableInsert hb).trans hrun, hT'⟩

theorem DictRefines.set_present {indexed : Bool} (hr : DictRefines h p (l ++ b :: r) indexed)
    (ht : Loose h p (dictItems (l ++ b :: r)) t)
    (hfind : (l ++ b :: r).find? (fun c => c.key = b.key) = some b) :
    ∃ h', plistDictSetItem h p b.key t.1 = some h' ∧
      DictRefines h' p (l ++ { b with item := t } :: r)
        (indexed || decide (2 * (l ++ b :: r).length > 500)) := by
  obtain ⟨ht', len, hd, hix, htab⟩ := hr.table
  obtain ⟨h₁, h₂, hfree, hins, hprev, hs2, hdp⟩ := hr.shape.place_present ht
  obtain ⟨h', hrun, hr'⟩ :=
    hs2.dictIndex (hdp.trans hd) fun T hT => hr.shape.table_present hs2 (htab T hT)
  have hget : plistDictGetItem h p b.key = some (.node b.item.1) := by
    rw [hr.getItem (hr.shape.nulFree b (by simp)), lookupRef, hfind]
  refine ⟨h', ?_, ?_⟩
  · simp only [plistDictSetItem, plistGetNodeType_of_data hd, PlistData.type, bind_eq_bind,
      bind_some, if_true, dictPlace, hget, hfree, putBack, hins, hprev]
    exact hrun
  · rw [← hix]
    simpa using hr'

end SetPresent

section SetAbsent

variable {h h₂ : PHeap} {p : Nat} {bs : List Binding} {key : List UInt8} {t : Item}

theorem DictNodes.of_cells {h' : PHeap} (hs : DictNodes h p bs)
    (heq : ∀ b ∈ p :: foot (dictItems bs), h'.cells b = h.cells b) : DictNodes h' p bs := by
  refine ⟨hs.holds.of_cells heq, fun b hb => ?_⟩
  rw [Heap.data, heq _ (mem_cons_of_mem p (mem_dictItems_key hb))]
  exact hs.keys b hb

theorem DictNodes.ne_top (hs : DictNodes h p bs) : ∀ b ∈ p :: foot (dictItems bs), b ≠ h.top := by
  rintro b hb rfl
  have hlt : h.top < h.top := by
    rcases mem_cons.mp hb with heq | hb
    · exact Heap.lt_top (heq ▸ hs.holds.children.toChain.isSome)
    · obtain ⟨u, hu, hbu⟩ := mem_flatMap.mp hb
      exact Heap.lt_top ((hs.holds.forest u hu).isSome_mem _ hbu)
  omega

theorem DictNodes.attach_pair (hs : DictNodes h p bs) {k n : Nat}
    (hk : h.data k = some (some ⟨.scalar (.key key), n⟩))
    (hloose : Loose h p (dictItems bs) (k, [k])) (ht : Loose h p (dictItems bs) t) (hkt : k ∉ t.2) :
    ∃ h₁ h₂, nodeAttach h p k = some h₁ ∧ nodeAttach h₁ p t.1 = some h₂ ∧
      DictNodes h₂ p (bs ++ [⟨k, key, t⟩]) ∧ h₂.data = h.data ∧ h₂.top = h.top := by
  obtain ⟨h₁, hatt1, hh1, hf1⟩ := hs.holds.attach hloose
  have hfirst : (if dictItems bs = [] then Ref.list p else .list p) = .list p := ite_self _
  rw [hfirst] at hh1
  have hlooseT : Loose h₁ p (dictItems bs ++ [(k, [k])]) t := by
    have hroots : ∀ b ∈ t.2, b ∉ p :: k :: roots (dictItems bs) := by
      intro b hb hmem
      simp only [mem_cons] at hmem
      rcases hmem with rfl | rfl | hmem
      · exact ht.out b hb mem_cons_self
      · exact hkt hb
      · exact ht.out b hb (mem_cons_of_mem p (hs.holds.forest.root_mem hmem))
    have hsame : ∀ b ∈ t.2, h₁.cells b = h.cells b := fun b hb => hf1.out b (hroots b hb)
    refine ⟨ht.tree.congr ?_ fun b hb => hsame b (mem_of_mem_tail hb), ht.nodup, ?_⟩
    · simp only [Heap.list, hsame t.1 ht.tree.root_mem]
    · intro b hb hmem
      simp only [foot_append, foot_cons, foot_nil, append_nil, mem_cons, mem_append,
        not_mem_nil, or_false] at hmem
      rcases hmem with rfl | hmem | rfl
      · exact ht.out b hb mem_cons_self
      · exact ht.out b hb (mem_cons_of_mem p hmem)
      · exact hkt hb
  obtain ⟨h₂, hatt2, hh2, hf2⟩ := hh1.attach hlooseT
  rw [if_neg (by simp)] at hh2
  have hdata : h₂.data = h.data := hf2.data.trans hf1.data
  refine ⟨h₁, h₂, hatt1, hatt2, ⟨by simpa using hh2, fun c hc => ?_⟩, hdata,
    hf2.top.trans hf1.top⟩
  rw [hdata]
  rcases mem_append.mp hc with hc | hc
  · exact hs.keys c hc
  · rw [mem_singleton.mp hc]
    exact ⟨n, hk⟩

theorem DictNodes.new_node (hs : DictNodes h p bs) (d : PlistData) :
    DictNodes (plistNewNode h d).2 p bs ∧
      Loose (plistNewNode h d).2 p (dictItems bs) (h.top, [h.top]) ∧
      ∀ {t : Item}, Loose h p (dictItems bs) t →
        Loose (plistNewNode h d).2 p (dictItems bs) t ∧ h.top ∉ t.2 := by
  obtain ⟨-, -, htree, -, -, hcells⟩ := plistNewNode_holds h d
  have hold := hs.ne_top
  refine ⟨hs.of_cells fun b hb => hcells b (hold b hb),
    ⟨htree, by simp, fun b hb hmem => hold b hmem (mem_singleton.mp hb)⟩, fun {t} ht => ?_⟩
  have htop : h.top ∉ t.2 := fun hmem =>
    absurd (Heap.lt_top (ht.tree.isSome_mem _ hmem)) (Nat.lt_irrefl _)
  have hsame : ∀ b ∈ t.2, (plistNewNode h d).2.cells b = h.cells b :=
    fun b hb => hcells b fun heq => htop (heq ▸ hb)
  refine ⟨⟨ht.tree.congr ?_ fun b hb => hsame b (mem_of_mem_tail hb), ht.nodup, ht.out⟩, htop⟩
  simp only [Heap.list, hsame t.1 ht.tree.root_mem]

theorem DictNodes.place_absent (hs : DictNodes h p bs) (hkey : NulFree key)
    (ht : Loose h p (dictItems bs) t) :
    ∃ h₁ h₂, nodeAttach (plistNewKey h key).2 p h.top = some h₁ ∧
      nodeAttach h₁ p t.1 = some h₂ ∧ DictNodes h₂ p (bs ++ [⟨h.top, key, t⟩]) ∧
      (∀ c ∈ bs, h₂.data c.keyNode = h.data c.keyNode) ∧
      h₂.data h.top = some (some ⟨.scalar (.key key), key.length⟩) ∧ h₂.data p = h.data p := by
  obtain ⟨-, -, -, hdk, -, hcells⟩ := plistNewNode_holds h ⟨.scalar (.key key), key.length⟩
  have hnew : (plistNewKey h key).2 = (plistNewNode h ⟨.scalar (.key key), key.length⟩).2 := by
    rw [plistNewKey, cstr_of_nulFree hkey, strlen_of_nulFree hkey]
  obtain ⟨hs0, hlooseK, hrest⟩ := hs.new_node ⟨.scalar (.key key), key.length⟩
  obtain ⟨hlooseT, htop⟩ := hrest ht
  obtain ⟨h₁, h₂, hatt1, hatt2, hn, hdata, -⟩ := hs0.attach_pair hdk hlooseK hlooseT htop
  have hkept : ∀ b ∈ p :: foot (dictItems bs), h₂.data b = h.data b := by
    intro b hb
    rw [hdata, Heap.data, hcells b (hs.ne_top b hb)]
    rfl
  refine ⟨h₁, h₂, hnew ▸ hatt1, hatt2, hn, fun c hc => ?_, (congrFun hdata h.top).trans hdk,
    hkept p mem_cons_self⟩
  exact hkept _ (mem_cons_of_mem p (mem_dictItems_key hc))

theorem DictShape.place_absent (hs : DictShape h p bs) (hkey : NulFree key)
    (habs : ∀ b ∈ bs, b.key ≠ key) (ht : Loose h p (dictItems bs) t) :
    ∃ h₁ h₂, nodeAttach (plistNewKey h key).2 p h.top = some h₁ ∧
      nodeAttach h₁ p t.1 = some h₂ ∧ DictShape h₂ p (bs ++ [⟨h.top, key, t⟩]) ∧
      h₂.data p = h.data p := by
  obtain ⟨h₁, h₂, hatt1, hatt2, hn, hkeys, hkeyTop, hdp⟩ := hs.nodes.place_absent hkey ht
  refine ⟨h₁, h₂, hatt1, hatt2, ⟨hn.holds, fun c hc => ?_, fun c hc => ?_, ?_⟩, hdp⟩
  · rcases mem_append.mp hc with hc | hc
    · exact (hkeys c hc).trans (hs.keys c hc)
    · rw [mem_singleton.mp hc]
      exact hkeyTop
  · rcases mem_append.mp hc with hc | hc
    · exact hs.nulFree c hc
    · rw [mem_singleton.mp hc]
      exact hkey
  · rw [map_append, nodup_append]
    refine ⟨hs.distinct, by simp, fun x hx y hy => ?_⟩
    obtain ⟨c, hc, rfl⟩ := mem_map.mp hx
    rw [map_singleton, mem_singleton] at hy
    exact hy ▸ habs c hc

theorem DictShape.table_absent {k : Nat} (hs : DictShape h p bs)
    (hs2 : DictShape h₂ p (bs ++ [⟨k, key, t⟩])) {T : DictTable}
    (hT : Indexes keyHash (keyName h) T (tablePairs bs)) :
    ∃ T', dictTableInsert h₂ T k (.node t.1) = some T' ∧
      Indexes keyHash (keyName h₂) T' (tablePairs (bs ++ [⟨k, key, t⟩])) := by
  have hk : (⟨k, key, t⟩ : Binding) ∈ bs ++ [⟨k, key, t⟩] := by simp
  have hname : keyName h₂ k = key := hs2.keyName_eq hk
  have hT2 : Indexes keyHash (keyName h₂) T (tablePairs bs) := by
    refine hT.congr fun q hq => ?_
    obtain ⟨c, hc, rfl⟩ := mem_map.mp hq
    rw [hs2.keyName_eq (mem_append_left _ hc), hs.keyName_eq hc]
  have hcmp : ∀ q ∈ tablePairs bs, compareWith h₂ (key, key.length) q.1 =
      some (decide (keyName h₂ q.1 = keyName h₂ k)) := by
    intro q hq
    rw [hname]
    refine hs2.compares (hs2.nulFree _ hk) q ?_
    rw [tablePairs, map_append]
    exact mem_append_left _ hq
  have habs : ∀ q ∈ tablePairs bs, keyName h₂ q.1 ≠ keyName h₂ k := by
    intro q hq
    obtain ⟨c, hc, rfl⟩ := mem_map.mp hq
    rw [hname, hs2.keyName_eq (mem_append_left _ hc)]
    have hdis := hs2.distinct
    rw [map_append, nodup_append] at hdis
    exact hdis.2.2 _ (mem_map_of_mem hc) _ (by simp)
  obtain ⟨T', hrun, hT'⟩ := hT2.insert_absent (.node t.1) hcmp habs
  rw [hname] at hrun
  refine ⟨T', (hs2.tableInsert hk).trans hrun, hT'.of_mem_iff fun q => ?_⟩
  simp [tablePairs, or_comm]

theorem DictRefines.set_absent {indexed : Bool} (hr : DictRefines h p bs indexed) (hkey : NulFree key)
    (ht : Loose h p (dictItems bs) t) (hfind : bs.find? (fun c => c.key = key) = none) :
    ∃ h' k, plistDictSetItem h p key t.1 = some h' ∧
      DictRefines h' p (bs ++ [⟨k, key, t⟩])
        (indexed || decide (2 * (bs.length + 1) > 500)) := by
  obtain ⟨ht', len, hd, hix, htab⟩ := hr.table
  have habs : ∀ b ∈ bs, b.key ≠ key := fun b hb => by
    simpa using List.find?_eq_none.mp hfind b hb
  obtain ⟨h₁, h₂, hatt1, hatt2, hs2, hdp⟩ := hr.shape.place_absent hkey habs ht
  obtain ⟨h', hrun, hr'⟩ :=
    hs2.dictIndex (hdp.trans hd) fun T hT => hr.shape.table_absent hs2 (htab T hT)
  have hget : plistDictGetItem h p key = some .null := by
    rw [hr.getItem hkey, lookupRef, hfind]
  have hnew : plistNewKey h key = (h.top, (plistNewKey h key).2) := rfl
  refine ⟨h', h.top, ?_, ?_⟩
  · simp only [plistDictSetItem, plistGetNodeType_of_data hd, PlistData.type, bind_eq_bind,
      bind_some, if_true, dictPlace, hget]
    rw [hnew]
    simp only [hatt1, hatt2, bind_some]
    exact hrun
  · rw [← hix]
    simpa using hr'

end SetAbsent

/-! ## `plist_dict_remove_item` -/

section Remove

variable {h h₁ : PHeap} {p : Nat} {l r : List Binding} {b : Binding}

variable {indexed : Bool}

theorem DictRefines.unindex (hr : DictRefines h p (l ++ b :: r) indexed) :
    ∃ h₁ ht len, dictUnindex h p b.keyNode = some h₁ ∧ DictShape h₁ p (l ++ b :: r) ∧
      h₁.data p = some (some ⟨.dict ht, len⟩) ∧ ht.isSome = indexed ∧
      ∀ T, ht = some T → Indexes keyHash (keyName h₁) T (tablePairs (l ++ r)) := by
  have hs := hr.shape
  obtain ⟨ht, len, hd, hix, htab⟩ := hr.table
  have hget : plistGetData h p = some (some ⟨.dict ht, len⟩) := hd
  have hb : b ∈ l ++ b :: r := by simp
  have hgetk : plistGetData h b.keyNode = some (some ⟨.scalar (.key b.key), b.key.length⟩) :=
    hs.keys b hb
  cases ht with
  | none =>
    refine ⟨h, none, len, ?_, hs, hd, hix, by simp⟩
    simp only [dictUnindex, dictHashtable, hget, bind_eq_bind, bind_some]
  | some T =>
    obtain ⟨T', hrem, hT'⟩ := (htab T rfl).remove (hs.compares (hs.nulFree b hb))
    obtain ⟨h₁, hset, hs1, hd1, -, -⟩ := hs.setHashtable hd (some T')
    refine ⟨h₁, some T', len, ?_, hs1, hd1, hix, ?_⟩
    · simp only [dictUnindex, dictHashtable, hget, hgetk, keyData_of_data (hs.keys b hb),
        dictKeyHash_eq, hrem, hset, bind_eq_bind, bind_some]
    · rintro _ ⟨⟩
      have hcongr : Indexes keyHash (keyName h₁) T' _ := hT'.congr fun q hq => by
        obtain ⟨c, hc, rfl⟩ := mem_map.mp (mem_of_mem_filter hq)
        rw [hs1.keyName_eq hc, hs.keyName_eq hc]
      refine hcongr.of_mem_iff fun q => ?_
      rw [mem_filter]
      constructor
      · intro hq
        obtain ⟨c, hc, rfl⟩ := mem_map.mp hq
        have hc' : c ∈ l ++ b :: r := by
          simp only [mem_append, mem_cons] at hc ⊢
          exact hc.imp_right .inr
        refine ⟨mem_map_of_mem (f := fun b : Binding => (b.keyNode, Ref.node b.item.1)) hc', ?_⟩
        rw [hs.keyName_eq hc']
        simpa using key_ne_of_distinct hs.distinct hc
      · rintro ⟨hq, hne⟩
        obtain ⟨c, hc, rfl⟩ := mem_map.mp hq
        rw [hs.keyName_eq hc] at hne
        refine mem_map_of_mem (f := fun b : Binding => (b.keyNode, Ref.node b.item.1)) ?_
        simp only [mem_append, mem_cons] at hc ⊢
        rcases hc with hc | rfl | hc
        · exact .inl hc
        · simp at hne
        · exact .inr hc

theorem DictShape.free_binding (hs : DictShape h p (l ++ b :: r)) :
    ∃ h₁ h₂, plistFree h b.keyNode = some (h₁, some (2 * l.length)) ∧
      plistFree h₁ b.item.1 = some (h₂, some (2 * l.length)) ∧ DictShape h₂ p (l ++ r) ∧
      ∀ x, x ∉ b.keyNode :: b.item.2 → h₂.data x = h.data x := by
  have hsplit : dictItems (l ++ b :: r) =
      dictItems l ++ (b.keyNode, [b.keyNode]) :: (b.item :: dictItems r) := by simp
  obtain ⟨h₁, hfree1, hh1, -, hdata1, -⟩ :=
    (hsplit ▸ hs.holds : Holds h p (.list p) _).free fun _ => rfl
  obtain ⟨h₂, hfree2, hh2, -, hdata2, -⟩ := hh1.free fun _ => rfl
  rw [length_dictItems] at hfree1 hfree2
  have hdata : ∀ x, x ∉ b.keyNode :: b.item.2 → h₂.data x = h.data x := by
    intro x hx
    rw [mem_cons, not_or] at hx
    rw [hdata2 x hx.2, hdata1 x (by simpa using hx.1)]
  obtain ⟨-, -, hcout⟩ := hs.nodes.key_out
  have hmem : ∀ c ∈ l ++ r, c ∈ l ++ b :: r := by
    intro c hc
    simp only [mem_append, mem_cons] at hc ⊢
    exact hc.imp_right .inr
  refine ⟨h₁, h₂, hfree1, hfree2, ⟨by simpa using hh2, fun c hc => ?_, fun c hc => ?_, ?_⟩, hdata⟩
  · rw [hdata _ (hcout c hc)]
    exact hs.keys c (hmem c hc)
  · exact hs.nulFree c (hmem c hc)
  · refine hs.distinct.sublist (List.Sublist.map _ ?_)
    exact List.Sublist.append_left (sublist_cons_self b r) l

theorem DictRefines.remove_present (hr : DictRefines h p (l ++ b :: r) indexed)
    (hfind : (l ++ b :: r).find? (fun c => c.key = b.key) = some b) :
    ∃ h', plistDictRemoveItem h p b.key = some h' ∧ DictRefines h' p (l ++ r) indexed := by
  have hs := hr.shape
  obtain ⟨ht0, len0, hd0, -, -⟩ := hr.table
  have hget : plistDictGetItem h p b.key = some (.node b.item.1) := by
    rw [hr.getItem (hs.nulFree b (by simp)), lookupRef, hfind]
  have hprev : nodePrevSibling h (.node b.item.1) = some (.node b.keyNode) := by
    have hc : Children h p (.list p)
        (roots (dictItems l) ++ b.keyNode :: b.item.1 :: roots (dictItems r)) := by
      simpa using hs.holds.children
    exact prev_of_children hc
  obtain ⟨h₁, ht, len, hun, hs1, hd1, hix, htab⟩ := hr.unindex
  obtain ⟨h₂, h3, hfree1, hfree2, hs3, hdata⟩ := hs1.free_binding
  obtain ⟨-, hpout, -⟩ := hs1.nodes.key_out
  refine ⟨h3, ?_, hs3, ht, len, (hdata p hpout).trans hd1, hix, fun T hT => (htab T hT).congr ?_⟩
  · simp only [plistDictRemoveItem, plistGetNodeType_of_data hd0, PlistData.type,
      bind_eq_bind, bind_some, if_true, hget, hprev, hun, hfree1, hfree2]
  · intro q hq
    obtain ⟨c, hc, rfl⟩ := mem_map.mp hq
    have hc' : c ∈ l ++ b :: r := by
      simp only [mem_append, mem_cons] at hc ⊢
      exact hc.imp_right .inr
    rw [hs3.keyName_eq hc, hs1.keyName_eq hc']

theorem DictRefines.remove_absent {bs : List Binding} {key : List UInt8}
    (hr : DictRefines h p bs indexed) (hkey : NulFree key)
    (hfind : bs.find? (fun c => c.key = key) = none) : plistDictRemoveItem h p key = some h := by
  obtain ⟨ht, len, hd, -, -⟩ := hr.table
  have hget : plistDictGetItem h p key = some .null := by
    rw [hr.getItem hkey, lookupRef, hfind]
  simp only [plistDictRemoveItem, plistGetNodeType_of_data hd, PlistData.type, bind_eq_bind,
    bind_some, if_true, hget]

end Remove

end IDeviceStack.Libplist
