/-
# `Libplist.Independence` — a plist and its copy

Memory has two owners: one works on the plist that was copied, the other on the copy, each with
`plist_dict_set_item`, `plist_dict_remove_item`, `plist_free` and new nodes (`Step`).  As long as
no pointer leads from what the one owns to what the other owns (`Parted`), no step of one is seen
in a lookup of the other.

**Proved here.**  `copy_independent_iff`.
-/
import IDeviceStack.Libplist.Copy
import Mathlib.Logic.Relation

namespace IDeviceStack.Libplist

open Lib Cnary List Option

/-! ## Two owners -/

inductive Side where
  | original
  | copy
  deriving DecidableEq, Repr

def Side.other : Side → Side
  | .original => .copy
  | .copy => .original

/-- Memory, and who works on which part of it. -/
structure Shared where
  heap : PHeap
  owner : Nat → Side

/-- Node `b` was handed out, and is one of `s`. -/
def Owns (σ : Shared) (s : Side) (b : Nat) : Prop := b < σ.heap.top ∧ σ.owner b = s

/-- No pointer leads from one side to the other, or to memory that was not handed out. -/
def Parted (σ : Shared) : Prop := ∀ s, PlistsIn (Owns σ s) σ.heap

/-- What a program does with its plists. -/
inductive Op where
  | new (data : PlistData)
  | setItem (node : Nat) (key : List UInt8) (item : Nat)
  | removeItem (node : Nat) (key : List UInt8)
  | free (plist : Nat)

/-- The nodes the program passes. -/
def Op.nodes : Op → List Nat
  | .new _ => []
  | .setItem node _ item => [node, item]
  | .removeItem node _ => [node]
  | .free plist => [plist]

/-- No constructor makes a hash table. -/
def Op.run (h : PHeap) : Op → Option PHeap
  | .new data =>
    match data.value with
    | .dict (some _) => none
    | _ => some (plistNewNode h data).2
  | .setItem node key item => plistDictSetItem h node key item
  | .removeItem node key => plistDictRemoveItem h node key
  | .free plist => (plistFree h plist).map Prod.fst

/-- One side does something with its own nodes, and owns the nodes that are new. -/
def Step (s : Side) (σ σ' : Shared) : Prop :=
  ∃ op : Op, (∀ a ∈ op.nodes, Owns σ s a) ∧ op.run σ.heap = some σ'.heap ∧
    σ'.owner = fun b => if b < σ.heap.top then σ.owner b else s

/-- The two sides take turns as they like. -/
abbrev Steps : Shared → Shared → Prop := Relation.ReflTransGen fun σ σ' => ∃ s, Step s σ σ'

/-- Whatever a side does, what the other side found is still found. -/
def Apart (σ : Shared) : Prop :=
  ∀ σ₁ σ₂ s, Steps σ σ₁ → Step s σ₁ σ₂ → ∀ node key r, Owns σ₁ s.other node →
    plistDictGetItem σ₁.heap node key = some r → plistDictGetItem σ₂.heap node key = some r

variable {S : Nat → Prop} {h : PHeap}

theorem Op.keeps {h' : PHeap} (op : Op) (hc : PlistsIn S h) (hnew : h.top < h'.top → S h.top)
    (hnodes : ∀ a ∈ op.nodes, S a) (hrun : op.run h = some h') : Keeps S h h' := by
  cases op with
  | new data =>
    have hplain : DataIn S (some data) ∧ (plistNewNode h data).2 = h' := by
      obtain ⟨value, length⟩ := data
      match value with
      | .scalar s | .array | .dict none =>
        refine ⟨?_, some.inj hrun⟩
        rintro _ ⟨⟩ T hT
        cases hT
    obtain ⟨hplain, rfl⟩ := hplain
    exact PlistsIn.new hc (hnew (Nat.lt_succ_self _)) hplain
  | setItem node key item =>
    exact PlistsIn.setItem hc hnew (hnodes node (by simp [Op.nodes]))
      (hnodes item (by simp [Op.nodes])) hrun
  | removeItem node key => exact PlistsIn.removeItem hc (hnodes node (by simp [Op.nodes])) hrun
  | free plist =>
    obtain ⟨⟨h1, i⟩, hfree, rfl⟩ := map_eq_some_iff.mp hrun
    exact PlistsIn.free hc (hnodes plist (by simp [Op.nodes])) hfree

variable {S' : Nat → Prop}

theorem RefIn.mono (hsub : ∀ b, S b → S' b) {r : Ref} (hr : RefIn S r) : RefIn S' r := by
  cases r with
  | null => trivial
  | node a => exact hsub a hr
  | list p => exact hsub p hr

theorem DataIn.mono (hsub : ∀ b, S b → S' b) {data : Option PlistData} (hd : DataIn S data) :
    DataIn S' data := fun d hdata T hT i e he =>
  have hin := hd d hdata T hT i e he
  ⟨hsub _ hin.1, RefIn.mono hsub hin.2⟩

theorem NodeIn.mono (hsub : ∀ b, S b → S' b) {n : Node (Option PlistData)}
    (hn : NodeIn S (DataIn S) n) : NodeIn S' (DataIn S') n :=
  ⟨RefIn.mono hsub hn.next, RefIn.mono hsub hn.prev, RefIn.mono hsub hn.parent,
    RefIn.mono hsub hn.beginRef, RefIn.mono hsub hn.endRef, DataIn.mono hsub hn.data⟩

theorem PlistsIn.grow (hc : PlistsIn S h) (hsub : ∀ b, S b → S' b)
    (hnew : ∀ b, S' b → b < h.top → S b) : PlistsIn S' h :=
  fun a n ha hn =>
    NodeIn.mono hsub (hc a n (hnew a ha (Heap.lt_top (isSome_iff_exists.mpr ⟨n, hn⟩))) hn)

theorem Side.other_ne (s : Side) : s.other ≠ s := by cases s <;> nofun

theorem Op.top_le {h' : PHeap} {op : Op} (hrun : op.run h = some h') : h.top ≤ h'.top :=
  (op.keeps (everywhere h) (fun _ => trivial) (fun _ _ => trivial) hrun).top

section Step

variable {s : Side} {σ σ' : Shared}

theorem Step.owns_iff (hs : Step s σ σ') (b : Nat) (t : Side) :
    Owns σ' t b ↔ b < σ'.heap.top ∧ if b < σ.heap.top then σ.owner b = t else s = t := by
  obtain ⟨op, -, -, howner⟩ := hs
  rw [Owns, howner]
  dsimp only
  split <;> rfl

theorem Step.top_le (hs : Step s σ σ') : σ.heap.top ≤ σ'.heap.top := by
  obtain ⟨op, -, hrun, -⟩ := hs
  exact op.top_le hrun

theorem Step.owns_of (hs : Step s σ σ') {b : Nat} {t : Side} (hb : Owns σ t b) : Owns σ' t b := by
  rw [hs.owns_iff, if_pos hb.1]
  exact ⟨Nat.lt_of_lt_of_le hb.1 hs.top_le, hb.2⟩

/-- **A step keeps to its side.** -/
theorem Step.keeps (hs : Step s σ σ') (hp : Parted σ) : Keeps (Owns σ' s) σ.heap σ'.heap := by
  have hs' := hs
  obtain ⟨op, hnodes, hrun, -⟩ := hs
  refine op.keeps ((hp s).grow (fun b => hs'.owns_of) fun b hb hlt => ?_) (fun hlt => ?_)
    (fun a ha => hs'.owns_of (hnodes a ha)) hrun
  · rw [hs'.owns_iff, if_pos hlt] at hb
    exact ⟨hlt, hb.2⟩
  · rw [hs'.owns_iff, if_neg (Nat.lt_irrefl _)]
    exact ⟨hlt, rfl⟩

theorem Step.same (hs : Step s σ σ') (hp : Parted σ) : SameIn (Owns σ s.other) σ.heap σ'.heap := by
  refine ⟨fun b hb => (hs.keeps hp).out b fun hown => ?_, hs.top_le⟩
  rw [hs.owns_iff, if_pos hb.1] at hown
  exact s.other_ne (hb.2.symm.trans hown.2)

/-- **The sides stay apart.** -/
theorem Step.parted (hs : Step s σ σ') (hp : Parted σ) : Parted σ' := by
  intro t
  by_cases hts : t = s
  · rw [hts]
    exact (hs.keeps hp).closed
  · obtain rfl : t = s.other := by
      cases t <;> cases s <;> first | rfl | exact absurd rfl hts
    intro a n ha hn
    have hown : Owns σ s.other a := by
      rw [hs.owns_iff] at ha
      split at ha
      · rename_i hlt
        exact ⟨hlt, ha.2⟩
      · exact absurd ha.2.symm s.other_ne
    rw [(hs.same hp).cells a hown] at hn
    exact NodeIn.mono (fun b => hs.owns_of) (hp _ a n hown hn)

theorem Steps.parted (hs : Steps σ σ') (hp : Parted σ) : Parted σ' := by
  induction hs with
  | refl => exact hp
  | tail _ hstep ih =>
    obtain ⟨s, hstep⟩ := hstep
    exact hstep.parted ih

/-- **No step of one side is seen in a lookup of the other.** -/
theorem Parted.apart (hp : Parted σ) : Apart σ := by
  intro σ₁ σ₂ s hsteps hstep node key r hown hget
  have hp1 := hsteps.parted hp
  exact (hstep.same hp1).getItem (hp1 s.other) hown hget

end Step

/-! ## What is copied -/

/-- A plist: a tree of nodes with data, with dictionaries in which keys may come again.  The keys of
a dictionary that has a hash table could all be hashed. -/
structure PlistTree (h : PHeap) (a : Nat) (fp : List Nat) : Prop where
  tree : Tree h a fp
  nodup : fp.Nodup
  root : h.parent a = some .null
  data : ∀ x ∈ fp, ∃ d, h.data x = some (some d)
  buffers : ∀ x ∈ fp, ∀ buff n, h.data x = some (some ⟨.scalar (.data buff), n⟩) → n ≤ buff.length
  dicts : ∀ x ∈ fp, ∀ ht n, h.data x = some (some ⟨.dict ht, n⟩) →
    ∃ bs, Dictionary h x bs ht ∧ (ht.isSome → ∀ b ∈ bs, Hashable h b)

theorem Copied.at {f : Nat → Nat} {h0 : PHeap} {a : Nat} {fp : List Nat} (hc : Copied f h0 h a fp)
    {x : Nat} (hx : x ∈ fp) :
    ∃ first last xs d', Chain h0 x first last xs ∧ CopiesTo h0 x d' ∧
      h.data (f x) = some (some d') ∧ Children h (f x) (.list (f x)) (xs.map f) ∧
      ∀ y ∈ xs, y ∈ fp := by
  induction hc with
  | node hchain hto hd hch hts ih =>
    rename_i a first last ts d'
    rcases mem_cons.mp hx with rfl | hx
    · refine ⟨first, last, roots ts, d', hchain, hto, hd, hch, fun y hy => ?_⟩
      obtain ⟨t, ht, rfl⟩ := mem_map.mp hy
      exact mem_cons_of_mem _ (mem_foot ht (hts t ht).root_mem)
    · obtain ⟨t, ht, hxt⟩ := mem_flatMap.mp hx
      obtain ⟨first', last', xs, d', h1, h2, h3, h4, h5⟩ := ih t ht hxt
      exact ⟨first', last', xs, d', h1, h2, h3, h4, fun y hy =>
        mem_cons_of_mem _ (mem_foot ht (h5 y hy))⟩

theorem copiesTo_of_eq {x : Nat} {d d' : PlistData} (hd : h.data x = some (some d))
    (hcopy : ∀ h', copyData h' x d = some d') : CopiesTo h x d' := ⟨d, hd, fun h' _ => hcopy h'⟩

section Tree

variable {h : PHeap} {a : Nat} {fp : List Nat}

variable {d len : Nat} {T : DictTable}

theorem PlistTree.copiesTo_table (hb : PlistsIn (· < h.top) h) {bs : List Binding}
    (hdict : Dictionary h d bs (some T)) (hhash : ∀ b ∈ bs, Hashable h b)
    (hdata : h.data d = some (some ⟨.dict (some T), len⟩)) :
    ∃ T', CopiesTo h d ⟨.dict (some T'), len⟩ ∧ KeysOf bs T' ∧
      indexDict h (h.top + 1) (headRef .node (roots (dictItems bs)) .null) hashTableNew = some T' := by
  have hholds := hdict.nodes.holds
  have hlen := hholds.children.toChain.length_lt
  rw [roots, length_map, length_dictItems] at hlen
  obtain ⟨T', hindex, hkeys, -⟩ := indexDict_last hdict.nodes (fun b hb => hb) hholds.children.seg
    (T := hashTableNew) (fun _ _ he => by cases he) hhash
    (show bs.length < h.top + 1 by omega)
  refine ⟨T', ⟨_, hdata, fun h' hs => ?_⟩, hkeys, hindex⟩
  obtain ⟨np, hp, hlist⟩ := cell_of_list hholds.children.list
  have hlt : d < h.top := Heap.lt_top hholds.children.isSome
  have hfirst : nodeFirstChild h' d = some (headRef .node (roots (dictItems bs)) .null) := by
    rw [nodeFirstChild, hs.cells d hlt, hp, map_some, hlist]
  have hrefin : RefIn (· < h.top) (headRef .node (roots (dictItems bs)) .null) := by
    have := (hb d np hlt hp).beginRef
    rwa [hlist] at this
  have hindex' := hs.index hb (Nat.succ_le_succ hs.top) hrefin (tableIn_new _) hindex
  simp only [copyData, hfirst, hindex', bind_eq_bind, bind_some]

variable {x : Nat}

theorem PlistTree.copiesTo (ht : PlistTree h a fp) (hb : PlistsIn (· < h.top) h) (hx : x ∈ fp) :
    ∃ d', CopiesTo h x d' := by
  obtain ⟨⟨value, len⟩, hd⟩ := ht.data x hx
  match value with
  | .scalar (.data buff) =>
    exact ⟨_, copiesTo_of_eq hd fun _ => if_pos (ht.buffers x hx buff len hd)⟩
  | .scalar (.key s) | .scalar (.string s) => exact ⟨_, copiesTo_of_eq hd fun _ => rfl⟩
  | .scalar (.boolean v) => exact ⟨_, copiesTo_of_eq hd fun _ => rfl⟩
  | .scalar (.uint v) | .scalar (.uid v) => exact ⟨_, copiesTo_of_eq hd fun _ => rfl⟩
  | .scalar (.real v) | .scalar (.date v) => exact ⟨_, copiesTo_of_eq hd fun _ => rfl⟩
  | .array | .dict none => exact ⟨_, copiesTo_of_eq hd fun _ => rfl⟩
  | .dict (some T) =>
    obtain ⟨bs, hdict, hhash⟩ := ht.dicts x hx _ _ hd
    obtain ⟨T', hto, -⟩ := PlistTree.copiesTo_table hb hdict (hhash rfl) hd
    exact ⟨_, hto⟩

/-! ## What the copy finds -/

/-- The copy of what a pointer leads to. -/
def copyRef (f : Nat → Nat) : Ref → Ref
  | .null => .null
  | .node x => .node (f x)
  | .list x => .list (f x)

/-- A dictionary of the copy finds the copies of what the dictionary it was made from finds. -/
def Mirrors (f : Nat → Nat) (h h' : PHeap) (fp : List Nat) : Prop :=
  ∀ d ∈ fp, plistGetNodeType h d = some .dict → ∀ key, NulFree key →
    ∃ r, plistDictGetItem h d key = some r ∧ RefIn (· ∈ fp) r ∧
      plistDictGetItem h' (f d) key = some (copyRef f r)

/-- No dictionary of the tree has both a hash table and children. -/
def NoIndexedChildren (h : PHeap) (fp : List Nat) : Prop :=
  ∀ d ∈ fp, ∀ T, dictHashtable h d = some (some T) → nodeNChildren h d = some 0

theorem CopiesTo.unique {d d' : PlistData} (hd : CopiesTo h x d) (hd' : CopiesTo h x d') :
    d = d' := by
  obtain ⟨e, he, hcopy⟩ := hd
  obtain ⟨e', he', hcopy'⟩ := hd'
  obtain rfl : e = e' := some.inj (some.inj (he.symm.trans he'))
  have hself : SameIn (· < h.top) h h := ⟨fun _ _ => rfl, Nat.le_refl _⟩
  exact some.inj ((hcopy h hself).symm.trans (hcopy' h hself))

theorem copiesTo_key {n : Nat} {s : List UInt8}
    (hd : h.data x = some (some ⟨.scalar (.key s), n⟩)) :
    CopiesTo h x ⟨.scalar (.key (cstr s)), n⟩ := copiesTo_of_eq hd fun _ => rfl

/-- The child with its key in the copy. -/
def copyBinding (f : Nat → Nat) (b : Binding) : Binding :=
  ⟨f b.keyNode, cstr b.key, (f b.item.1, [])⟩

theorem roots_copyBinding (f : Nat → Nat) (bs : List Binding) :
    roots (dictItems (bs.map (copyBinding f))) = (roots (dictItems bs)).map f := by
  induction bs with
  | nil => rfl
  | cons b bs ih =>
    simp only [map_cons, dictItems_cons, roots_cons, ih]
    rfl

theorem firstFor_copyBinding (f : Nat → Nat) (x : List UInt8) (bs : List Binding) :
    firstFor x (bs.map (copyBinding f)) = (firstFor x bs).map (copyBinding f) := by
  have hsame : ((fun b : Binding => decide (cstr b.key = x)) ∘ copyBinding f) =
      fun b : Binding => decide (cstr b.key = x) := by
    funext b
    simp [copyBinding]
  rw [firstFor, List.find?_map, hsame, firstFor]

theorem Dictionary.found_nothing (hd : Dictionary h d [] (some T)) (x : List UInt8) :
    found h [] (some T) x = none := by
  have hempty : T.entries (bucket (keyHash x)) = [] := by
    refine eq_nil_iff_forall_not_mem.mpr fun e he => ?_
    obtain ⟨b, hb, -⟩ := (hd.table T rfl).keys _ e he
    cases hb
  rw [found, tableGet, hashTableLookup, hempty]
  rfl

theorem getItem_newTable (hdata : h.data d = some (some ⟨.dict (some hashTableNew), len⟩))
    {x : List UInt8} (hx : NulFree x) : plistDictGetItem h d x = some .null := by
  have hget : plistGetData h d = some (some ⟨.dict (some hashTableNew), len⟩) := hdata
  simp only [plistDictGetItem, plistGetNodeType_of_data hdata, dictHashtable, hget,
    bind_eq_bind, bind_some, PlistData.type, if_true, strlen_of_nulFree hx,
    dictKeyHash_eq, hashTableLookup, hashTableNew, chainLookup, getD_none]

theorem dictHashtable_of_data {ht : Option DictTable}
    (hdata : h.data d = some (some ⟨.dict ht, len⟩)) : dictHashtable h d = some ht := by
  have hget : plistGetData h d = some (some ⟨.dict ht, len⟩) := hdata
  simp only [dictHashtable, hget, bind_eq_bind, bind_some]

theorem nodeNChildren_eq {d : Nat} {first : Ref} {xs : List Nat} (hc : Children h d first xs) :
    nodeNChildren h d = some xs.length := hc.count

theorem PlistTree.childless (ht : PlistTree h a fp) (hb : PlistsIn (· < h.top) h)
    (hno : NoIndexedChildren h fp) (hd : d ∈ fp)
    (hdata : h.data d = some (some ⟨.dict (some T), len⟩)) :
    Dictionary h d [] (some T) ∧ CopiesTo h d ⟨.dict (some hashTableNew), len⟩ := by
  obtain ⟨bs, hdict, hhash⟩ := ht.dicts d hd _ _ hdata
  obtain rfl : bs = [] := by
    have hcount := nodeNChildren_eq hdict.nodes.holds.children
    rw [hno d hd T (dictHashtable_of_data hdata), roots, length_map, length_dictItems] at hcount
    refine length_eq_zero_iff.mp ?_
    have := some.inj hcount
    omega
  obtain ⟨T', hto, -, hindex⟩ := PlistTree.copiesTo_table hb hdict (hhash rfl) hdata
  obtain rfl : hashTableNew = T' := some.inj hindex
  exact ⟨hdict, hto⟩

/-- **What a copy finds**, if no table leads back into the original. -/
theorem TreeCopied.mirrors {f : Nat → Nat} {h' : PHeap} (hcopy : TreeCopied f h h' a fp)
    (ht : PlistTree h a fp) (hb : PlistsIn (· < h.top) h) (hno : NoIndexedChildren h fp) :
    Mirrors f h h' fp := by
  intro d hd htype key hkey
  obtain ⟨⟨value, len⟩, hdata⟩ := ht.data d hd
  obtain ⟨ht', rfl⟩ : ∃ ht', value = .dict ht' := by
    rw [plistGetNodeType_of_data hdata] at htype
    match value with
    | .dict ht' => exact ⟨ht', rfl⟩
    | .array => cases htype
    | .scalar s => cases s <;> cases htype
  obtain ⟨first, last, xs, d', hchain, hto, hdata', hchildren, hin⟩ := hcopy.copied.at hd
  cases ht' with
  | some T =>
    obtain ⟨hdict, hto'⟩ := ht.childless hb hno hd hdata
    obtain rfl := hto.unique hto'
    refine ⟨.null, ?_, trivial, getItem_newTable hdata' hkey⟩
    rw [hdict.getItem hkey, hdict.found_nothing]
    rfl
  | none =>
    obtain ⟨bs, hdict, -⟩ := ht.dicts d hd _ _ hdata
    obtain rfl := hto.unique (copiesTo_of_eq hdata fun _ => rfl)
    obtain rfl : xs = roots (dictItems bs) := hchain.unique hdict.nodes.holds.children.toChain
    have hkeys : ∀ b ∈ bs.map (copyBinding f),
        ∃ n, h'.data b.keyNode = some (some ⟨.scalar (.key b.key), n⟩) := by
      intro c hc
      obtain ⟨b, hbs, rfl⟩ := mem_map.mp hc
      obtain ⟨n, hn⟩ := hdict.nodes.keys b hbs
      have hmem : b.keyNode ∈ roots (dictItems bs) :=
        mem_map.mpr ⟨(b.keyNode, [b.keyNode]), mem_flatMap.mpr ⟨b, hbs, by simp⟩, rfl⟩
      obtain ⟨-, -, -, e', -, hto', he', -⟩ := hcopy.copied.at (hin _ hmem)
      obtain rfl := hto'.unique (copiesTo_key hn)
      exact ⟨n, he'⟩
    rw [← roots_copyBinding] at hchildren
    refine ⟨_, hdict.getItem hkey, ?_, ?_⟩
    · cases hfirst : firstFor key bs with
      | none => rw [found, hfirst]; trivial
      | some b =>
        rw [found, hfirst]
        refine hin _ (mem_map.mpr ⟨b.item, mem_flatMap.mpr ⟨b, ?_, by simp⟩, rfl⟩)
        exact mem_of_find?_eq_some hfirst
    · rw [getItem_scan hdata' hchildren hkeys hkey, firstFor_copyBinding, found]
      cases firstFor key bs <;> rfl

end Tree

/-! ## The sides after the copy -/

/-- The copy is for the side that asked for it. -/
def afterCopy (σ : Shared) (h' : PHeap) : Shared :=
  ⟨h', fun b => if b < σ.heap.top then σ.owner b else .copy⟩

/-- The plist was copied, the copy finds what the original finds, and the two stay apart. -/
def Independent (σ : Shared) (a : Nat) (fp : List Nat) : Prop :=
  ∃ h', plistCopy σ.heap a = some (h', copyOf σ.heap fp a) ∧
    Mirrors (copyOf σ.heap fp) σ.heap h' fp ∧ Apart (afterCopy σ h')

section Copy

variable {σ : Shared} {a : Nat} {fp : List Nat} {h' : PHeap}

theorem Parted.bounded (hp : Parted σ) : PlistsIn (· < σ.heap.top) σ.heap := fun b n hb hn =>
  NodeIn.mono (fun _ hc => hc.1) (hp (σ.owner b) b n ⟨hb, rfl⟩ hn)

theorem copyData_table {h : PHeap} {x : Nat} {d d' : PlistData} (hcopy : copyData h x d = some d')
    {T' : DictTable} (hT' : d'.value = .dict (some T')) : ∃ T, d.value = .dict (some T) := by
  obtain ⟨value, len⟩ := d
  match value with
  | .dict (some T) => exact ⟨T, rfl⟩
  | .scalar (.data buff) =>
    rw [copyData] at hcopy
    dsimp only at hcopy
    split at hcopy
    · cases hcopy
      cases hT'
    · cases hcopy
  | .scalar (.key s) | .scalar (.string s) | .scalar (.boolean v) | .scalar (.uint v)
  | .scalar (.uid v) | .scalar (.real v) | .scalar (.date v) | .array | .dict none =>
    cases hcopy
    cases hT'

theorem TreeCopied.parted (hcopy : TreeCopied (copyOf σ.heap fp) σ.heap h' a fp) (hp : Parted σ)
    (ht : PlistTree σ.heap a fp) (hno : NoIndexedChildren σ.heap fp) : Parted (afterCopy σ h') := by
  have hle : σ.heap.top ≤ h'.top := hcopy.top ▸ Nat.le_add_right _ _
  have howns : ∀ b s, Owns (afterCopy σ h') s b ↔
      b < h'.top ∧ if b < σ.heap.top then σ.owner b = s else .copy = s := by
    intro b s
    rw [Owns, afterCopy]
    dsimp only
    split <;> rfl
  have hof : ∀ b s, Owns σ s b → Owns (afterCopy σ h') s b := by
    intro b s hb
    rw [howns, if_pos hb.1]
    exact ⟨Nat.lt_of_lt_of_le hb.1 hle, hb.2⟩
  intro s
  cases s with
  | original =>
    intro b n hb hn
    have hown : Owns σ .original b := by
      rw [howns] at hb
      split at hb
      · rename_i hlt
        exact ⟨hlt, hb.2⟩
      · cases hb.2
    have hn' : σ.heap.cells b = some n := (hcopy.cells b hown.1).symm.trans hn
    exact NodeIn.mono (fun c => hof c _) (hp _ b n hown hn')
  | copy =>
    refine (hcopy.keeps _ (fun b hb hlt => ?_) (fun x hx d' hto => ?_) ?_).closed
    · rw [howns, if_neg (Nat.not_lt.mpr hb)]
      exact ⟨hcopy.top ▸ hlt, rfl⟩
    · rintro _ ⟨⟩ T' hT'
      obtain ⟨⟨value, len⟩, hd, hcopy'⟩ := id hto
      obtain ⟨T, rfl⟩ := copyData_table (hcopy' σ.heap ⟨fun _ _ => rfl, Nat.le_refl _⟩) hT'
      obtain rfl := hto.unique (ht.childless hp.bounded hno hx hd).2
      obtain rfl : hashTableNew = T' := some.inj (Value.dict.inj hT')
      exact tableIn_new _
    · refine (hp .copy).grow (fun b => hof b _) fun b hb hlt => ?_
      rw [howns, if_pos hlt] at hb
      exact ⟨hlt, hb.2⟩

theorem PlistTree.independent (hp : Parted σ) (ht : PlistTree σ.heap a fp)
    (hno : NoIndexedChildren σ.heap fp) : Independent σ a fp := by
  obtain ⟨h', hrun, hcopy⟩ :=
    plistCopy_copied ht.tree ht.nodup fun x hx => ht.copiesTo hp.bounded hx
  exact ⟨h', hrun, hcopy.mirrors ht hp.bounded hno, (hcopy.parted hp ht hno).apart⟩

end Copy

/-! ## Tables that lead back -/

theorem signExtend_ascii {c : UInt8} (hc : c.toNat < 128) :
    c.toBitVec.signExtend 32 = BitVec.ofNat 32 c.toNat := by
  rw [BitVec.signExtend_eq_setWidth_of_msb_false]
  · exact BitVec.eq_of_toNat_eq (by simp)
  · rw [BitVec.msb_eq_decide]
    simpa using hc

theorem keyHash_pair {a b : UInt8} (ha : a.toNat < 128) (hb : b.toNat < 128) :
    (keyHash [a, b]).toNat = 5381 * 1089 + 33 * a.toNat + b.toNat := by
  have hstart : (5381#32 <<< 5) + 5381#32 = 177573#32 := by decide
  simp only [keyHash, foldl_cons, foldl_nil, signExtend_ascii ha, signExtend_ascii hb, hstart]
  simp only [BitVec.toNat_add, BitVec.toNat_shiftLeft, BitVec.toNat_ofNat, Nat.shiftLeft_eq]
  omega

theorem exists_bucket {i : Nat} (hi : i < 4096) : ∃ x, NulFree x ∧ bucket (keyHash x) = i := by
  -- 33 times the first character plus the second goes through all residues
  obtain ⟨n, hn, hin⟩ : ∃ n, n < 4096 ∧ (5381 * 1089 + 34 + n) % 4096 = i :=
    ⟨(i + 4096 - (5381 * 1089 + 34) % 4096) % 4096, by omega, by omega⟩
  refine ⟨[UInt8.ofNat (n / 33 + 1), UInt8.ofNat (n % 33 + 1)], ?_, ?_⟩
  · intro c hc
    simp only [mem_cons, not_mem_nil, or_false] at hc
    rcases hc with rfl | rfl
    · intro h
      have := congrArg UInt8.toNat h
      simp at this
      omega
    · intro h
      have := congrArg UInt8.toNat h
      simp at this
      omega
  · have ha : (UInt8.ofNat (n / 33 + 1)).toNat = n / 33 + 1 := by
      rw [UInt8.toNat_ofNat']
      omega
    have hb : (UInt8.ofNat (n % 33 + 1)).toNat = n % 33 + 1 := by
      rw [UInt8.toNat_ofNat']
      omega
    rw [bucket, keyHash_pair (by omega) (by omega), ha, hb]
    omega
theorem chainReplace_ne_nil {cmp : Nat → Option Bool} {v : Ref} {es es' : List (HashEntry Nat Ref)}
    (hrun : chainReplace cmp v es = some (some es')) : es' ≠ [] := by
  cases es with
  | nil => cases hrun
  | cons e es =>
    rw [chainReplace] at hrun
    obtain ⟨b, -, hrun⟩ := bind_eq_some_iff.mp hrun
    cases b with
    | true =>
      cases hrun
      exact cons_ne_nil _ _
    | false =>
      obtain ⟨rest, -, hrun⟩ := bind_eq_some_iff.mp hrun
      obtain ⟨es'', -, rfl⟩ := map_eq_some_iff.mp (some.inj hrun)
      exact cons_ne_nil _ _

variable {T T' : DictTable}

theorem tableInsert_filled {k : Nat} {v : Ref} {d : PlistData} (hd : h.data k = some (some d))
    (hrun : dictTableInsert h T k v = some T') :
    (∃ hash : BitVec 32, T'.entries (bucket hash) ≠ []) ∧
      ∀ i, T.entries i ≠ [] → T'.entries i ≠ [] := by
  have hget : plistGetData h k = some (some d) := hd
  rw [dictTableInsert] at hrun
  obtain ⟨data, hdata, hrun⟩ := bind_eq_some_iff.mp hrun
  obtain rfl : some d = data := some.inj (hget.symm.trans hdata)
  obtain ⟨key, -, hrun⟩ := bind_eq_some_iff.mp hrun
  obtain ⟨hash, -, hrun⟩ := bind_eq_some_iff.mp hrun
  rw [hashTableInsert] at hrun
  obtain ⟨o, hreplace, hrun⟩ := bind_eq_some_iff.mp hrun
  obtain ⟨es, hes, hentries⟩ : ∃ es, es ≠ [] ∧
      T'.entries = Function.update T.entries (bucket hash) es := by
    cases o with
    | some es =>
      cases hrun
      exact ⟨es, chainReplace_ne_nil hreplace, rfl⟩
    | none =>
      cases hrun
      exact ⟨_, cons_ne_nil _ _, rfl⟩
  rw [hentries]
  refine ⟨⟨hash, by rwa [Function.update_self]⟩, fun i hi => ?_⟩
  by_cases heq : i = bucket hash
  · rw [heq, Function.update_self]
    exact hes
  · rwa [Function.update_of_ne heq]

theorem indexDict_filled {fuel : Nat} {r : Ref} {i : Nat} (hi : T.entries i ≠ [])
    (hrun : indexDict h fuel r T = some T') : T'.entries i ≠ [] := by
  induction fuel generalizing r T with
  | zero => cases hrun
  | succ fuel ih =>
    cases r with
    | null =>
      cases hrun
      exact hi
    | list q => cases hrun
    | node current =>
      rw [indexDict] at hrun
      obtain ⟨value, -, hrun⟩ := bind_eq_some_iff.mp hrun
      obtain ⟨T₁, hins, hrun⟩ := bind_eq_some_iff.mp hrun
      obtain ⟨next, -, hrun⟩ := bind_eq_some_iff.mp hrun
      refine ih ?_ hrun
      cases hdata : h.data current with
      | none =>
        have hget : plistGetData h current = none := hdata
        rw [dictTableInsert, hget] at hins
        cases hins
      | some d =>
        cases d with
        | some d => exact (tableInsert_filled hdata hins).2 i hi
        | none =>
          have hget : plistGetData h current = some none := hdata
          rw [dictTableInsert, hget] at hins
          cases hins
          exact hi

theorem indexDict_cons {fuel : Nat} {b : Binding} {bs : List Binding} {n : Nat}
    (hb : h.data b.keyNode = some (some ⟨.scalar (.key b.key), n⟩))
    (hrun : indexDict h fuel (headRef .node (roots (dictItems (b :: bs))) .null) T = some T') :
    ∃ hash : BitVec 32, T'.entries (bucket hash) ≠ [] := by
  cases fuel with
  | zero => cases hrun
  | succ fuel =>
    rw [dictItems_cons, roots_cons, headRef_cons, indexDict] at hrun
    obtain ⟨value, -, hrun⟩ := bind_eq_some_iff.mp hrun
    obtain ⟨T₁, hins, hrun⟩ := bind_eq_some_iff.mp hrun
    obtain ⟨next, -, hrun⟩ := bind_eq_some_iff.mp hrun
    obtain ⟨hash, hne⟩ := (tableInsert_filled hb hins).1
    exact ⟨hash, indexDict_filled hne hrun⟩

theorem getItem_freed {h : PHeap} {d len : Nat} {T : DictTable}
    (hdata : h.data d = some (some ⟨.dict (some T), len⟩)) {x : List UInt8} (hx : NulFree x)
    (hne : T.entries (bucket (keyHash x)) ≠ [])
    (hfreed : ∀ e ∈ T.entries (bucket (keyHash x)), h.cells e.key = none) :
    plistDictGetItem h d x = none := by
  obtain ⟨e, es, hes⟩ := exists_cons_of_ne_nil hne
  have hnone : compareWith h (x, x.length) e.key = none := by
    have hcell := hfreed e (hes ▸ mem_cons_self)
    have hget : plistGetData h e.key = none := by rw [plistGetData, hcell]; rfl
    simp only [compareWith, keyData, hget, bind_eq_bind, bind_none, map_none]
  have hlook : hashTableLookup T (keyHash x) (compareWith h (x, x.length)) = none := by
    rw [hashTableLookup, hes, chainLookup, hnone]
    rfl
  have htype := plistGetNodeType_of_data hdata
  simp only [plistDictGetItem, htype, dictHashtable_of_data hdata, bind_eq_bind,
    bind_some, PlistData.type, if_true, strlen_of_nulFree hx, dictKeyHash_eq, hlook, bind_none]

theorem PlistTree.dependent {σ : Shared} {a : Nat} {fp : List Nat} (hp : Parted σ)
    (ht : PlistTree σ.heap a fp) (howner : ∀ x ∈ fp, σ.owner x = .original) {d : Nat} (hd : d ∈ fp)
    (hT : dictHashtable σ.heap d = some (some T)) (hn : nodeNChildren σ.heap d ≠ some 0) :
    ¬ Independent σ a fp := by
  rintro ⟨h', hrun, -, hapart⟩
  obtain ⟨h1, hrun', hcopy⟩ :=
    plistCopy_copied ht.tree ht.nodup fun x hx => ht.copiesTo hp.bounded hx
  obtain ⟨rfl, -⟩ : h' = h1 ∧ _ := Prod.mk.inj (some.inj (hrun.symm.trans hrun'))
  obtain ⟨⟨value, len⟩, hdata⟩ := ht.data d hd
  obtain rfl : value = .dict (some T) := by
    have hget : plistGetData σ.heap d = some (some ⟨value, len⟩) := hdata
    rw [dictHashtable, hget] at hT
    cases value with
    | dict ht' => rw [some.inj hT]
    | array => cases hT
    | scalar s => cases hT
  obtain ⟨bs, hdict, hhash⟩ := ht.dicts d hd _ _ hdata
  obtain ⟨T', hto, hkeys, hindex⟩ := PlistTree.copiesTo_table hp.bounded hdict (hhash rfl) hdata
  obtain ⟨first, last, xs, d', hchain, hto', hdata', -, hin⟩ := hcopy.copied.at hd
  obtain rfl := hto'.unique hto
  obtain rfl : xs = roots (dictItems bs) := hchain.unique hdict.nodes.holds.children.toChain
  have hlt : ∀ b ∈ fp, b < σ.heap.top := fun b hb => Heap.lt_top (ht.tree.isSome_mem b hb)
  have hmem : ∀ b ∈ bs, b.keyNode ∈ fp := fun b hb =>
    hin _ (mem_map.mpr ⟨(b.keyNode, [b.keyNode]), mem_flatMap.mpr ⟨b, hb, by simp⟩, rfl⟩)
  -- a key that hashes to a bucket with an entry in it
  obtain ⟨hash, hne⟩ : ∃ hash : BitVec 32, T'.entries (bucket hash) ≠ [] := by
    cases bs with
    | nil =>
      have hcount := nodeNChildren_eq hdict.nodes.holds.children
      exact absurd hcount hn
    | cons b bs =>
      obtain ⟨n, hb⟩ := hdict.nodes.keys b mem_cons_self
      exact indexDict_cons hb hindex
  obtain ⟨x, hx, hbucket⟩ := exists_bucket (i := bucket hash) (Nat.mod_lt _ (by decide))
  rw [← hbucket] at hne
  -- is looked up in the copy
  obtain ⟨r, hr⟩ : ∃ r, plistDictGetItem h' (copyOf σ.heap fp d) x = some r := by
    have hsame := tableGet_congr hkeys
      (fun b hb => congrArg (Option.map Node.data) (hcopy.cells _ (hlt _ (hmem b hb)))) x
    obtain ⟨v, hv⟩ := isSome_iff_exists.mp (tableGet_isSome hdict.nodes hkeys x)
    have hlook : hashTableLookup T' (keyHash x) (compareWith h' (x, x.length)) = some v :=
      hsame.trans hv
    have htype := plistGetNodeType_of_data hdata'
    refine ⟨v.getD .null, ?_⟩
    simp only [plistDictGetItem, htype, dictHashtable_of_data hdata', bind_eq_bind,
      bind_some, PlistData.type, if_true, strlen_of_nulFree hx, dictKeyHash_eq, hlook]
  -- and again when the original is gone
  have htree : Tree h' a fp := by
    refine ht.tree.congr (congrArg (Option.map _) (hcopy.cells a (hlt a ht.tree.root_mem)))
      fun b hb => hcopy.cells b (hlt b (mem_of_mem_tail hb))
  have hroot : h'.parent a = some .null := by
    rw [Heap.parent, hcopy.cells a (hlt a ht.tree.root_mem)]
    exact ht.root
  obtain ⟨h'', hfree, hfreed⟩ := plistFree_root htree ht.nodup hroot
  have hge : ∀ b, b < σ.heap.top → b < h'.top := fun b hb => by
    have := hcopy.top
    omega
  have hplaced := mem_placed (map_copyOf σ.heap ht.nodup) hd
  have hout : copyOf σ.heap fp d ∉ fp := fun hmem' =>
    absurd (hlt _ hmem') (Nat.not_lt.mpr hplaced.1)
  have hstep : Step .original (afterCopy σ h')
      ⟨h'', fun b => if b < h'.top then (afterCopy σ h').owner b else .original⟩ := by
    refine ⟨.free a, fun b hb => ?_, ?_, rfl⟩
    · obtain rfl : b = a := mem_singleton.mp hb
      have hb' := hlt b ht.tree.root_mem
      exact ⟨hge b hb', (if_pos hb').trans (howner b ht.tree.root_mem)⟩
    · exact congrArg (Option.map Prod.fst) hfree
  have hown : Owns (afterCopy σ h') .copy (copyOf σ.heap fp d) := by
    refine ⟨?_, if_neg (Nat.not_lt.mpr hplaced.1)⟩
    show copyOf σ.heap fp d < h'.top
    rw [hcopy.top]
    exact hplaced.2
  have hstill := hapart _ _ _ .refl hstep _ x r hown hr
  have hdata'' : h''.data (copyOf σ.heap fp d) = some (some ⟨.dict (some T'), len⟩) := by
    rw [Heap.data, hfreed.kept _ hout]
    exact hdata'
  have hgone : ∀ e ∈ T'.entries (bucket (keyHash x)), h''.cells e.key = none := by
    intro e he
    obtain ⟨b, hb, hbe⟩ := hkeys _ e he
    rw [← hbe]
    exact hfreed.gone _ (hmem b hb)
  have hnone := getItem_freed hdata'' hx hne hgone
  exact absurd (hnone.symm.trans hstill) (some_ne_none _).symm

/-- **A copy is independent of its original**, exactly if no dictionary of the original has both a
hash table and children. -/
theorem copy_independent_iff {σ : Shared} {a : Nat} {fp : List Nat} (hp : Parted σ)
    (ht : PlistTree σ.heap a fp) (howner : ∀ x ∈ fp, σ.owner x = .original) :
    Independent σ a fp ↔ NoIndexedChildren σ.heap fp := by
  refine ⟨fun hind d hd T hT => ?_, ht.independent hp⟩
  by_contra hn
  exact ht.dependent hp howner hd hT hn hind

/-- One child is left of a dictionary that had more than 500: it still has its table. -/
def lastIndexed : DictTable :=
  ⟨fun i => if i = bucket (keyHash [0x61]) then [⟨2, .node 1⟩] else [], 251⟩

/-- The dictionary is at 0, with a table or none, and has the value 1 under the key node 2. -/
def lastChild (table : Option DictTable) : PHeap :=
  ((plistDictSetItem dictAndBoolean 0 [0x61] 1).bind fun h => setHashtable h 0 table).getD Heap.empty

section LastChild

variable {table : Option DictTable}

theorem lastChild_cells (table : Option DictTable) : (lastChild table).top = 3 ∧
    (lastChild table).cells 0 = some ⟨.null, .null, 2, true, false, some ⟨.dict table, 0⟩, 0, .null,
      ⟨.node 2, .node 1, 2⟩⟩ ∧
    (lastChild table).cells 1 = some ⟨.null, .node 2, 0, false, true,
      some ⟨.scalar (.boolean 1), 1⟩, 1, .node 0, ⟨.null, .list 1, 0⟩⟩ ∧
    (lastChild table).cells 2 = some ⟨.node 1, .list 0, 0, false, true,
      some ⟨.scalar (.key [0x61]), 1⟩, 1, .node 0, ⟨.null, .list 2, 0⟩⟩ := ⟨rfl, rfl, rfl, rfl⟩

theorem lastChild_data (table : Option DictTable) :
    (lastChild table).data 0 = some (some ⟨.dict table, 0⟩) ∧
      (lastChild table).data 1 = some (some ⟨.scalar (.boolean 1), 1⟩) ∧
      (lastChild table).data 2 = some (some ⟨.scalar (.key [0x61]), 1⟩) := ⟨rfl, rfl, rfl⟩

theorem dictionary_lastChild (htable : ∀ T, table = some T → T = lastIndexed) :
    Dictionary (lastChild table) 0 [⟨2, [0x61], (1, [1])⟩] table := by
  obtain ⟨-, h0, h1, h2⟩ := lastChild_cells table
  have hleaf1 : Tree (lastChild table) 1 [1] :=
    Tree.leaf (show Chain (lastChild table) 1 (.list 1) (.list 1) [] from
      ⟨by rw [Heap.list, h1]; rfl, trivial, by simp, by simp, .inr rfl⟩)
  have hleaf2 : Tree (lastChild table) 2 [2] :=
    Tree.leaf (show Chain (lastChild table) 2 (.list 2) (.list 2) [] from
      ⟨by rw [Heap.list, h2]; rfl, trivial, by simp, by simp, .inr rfl⟩)
  have hchain : Chain (lastChild table) 0 (.list 0) (.node 1) [2, 1] := by
    refine ⟨by rw [Heap.list, h0]; rfl, ⟨by rw [Heap.links, h2]; rfl, by rw [Heap.links, h1]; rfl,
      trivial⟩, fun a ha => ?_, by decide, .inr rfl⟩
    simp only [mem_cons, not_mem_nil, or_false] at ha
    rcases ha with rfl | rfl
    · rw [Heap.parent, h2]; rfl
    · rw [Heap.parent, h1]; rfl
  have hnodes : DictNodes (lastChild table) 0 [⟨2, [0x61], (1, [1])⟩] := by
    refine ⟨⟨⟨hchain, by rw [Heap.count, h0]; rfl⟩, fun t ht => ?_, by decide⟩, fun b hb => ?_⟩
    · simp only [dictItems_cons, dictItems_nil, mem_cons, not_mem_nil, or_false] at ht
      rcases ht with rfl | rfl
      · exact hleaf2
      · exact hleaf1
    · obtain rfl := mem_singleton.mp hb
      exact ⟨1, (lastChild_data table).2.2⟩
  have hentries : ∀ i, ∀ e ∈ lastIndexed.entries i, e = ⟨2, .node 1⟩ := by
    intro i e he
    rw [lastIndexed] at he
    dsimp only at he
    split at he
    · exact mem_singleton.mp he
    · cases he
  refine ⟨hnodes, ⟨0, (lastChild_data table).1⟩, fun T hT => ?_⟩
  obtain rfl := htable T hT
  refine ⟨fun i e he => ⟨_, mem_singleton_self _, ?_⟩, fun x hx v hv => ?_⟩
  · rw [hentries i e he]
  · refine ⟨_, mem_singleton_self _, ?_⟩
    have hcmp := compareWith_eq hnodes (mem_singleton_self _) hx
    rw [tableGet, hashTableLookup] at hv
    -- the only entry there is
    cases hes : lastIndexed.entries (bucket (keyHash x)) with
    | nil =>
      rw [hes] at hv
      cases hv
    | cons e es =>
      have he : e = ⟨2, .node 1⟩ := hentries _ e (hes ▸ mem_cons_self)
      have hnil : es = [] := by
        have hlen : (lastIndexed.entries (bucket (keyHash x))).length ≤ 1 := by
          rw [lastIndexed]
          dsimp only
          split <;> simp
        rw [hes, length_cons] at hlen
        exact length_eq_zero_iff.mp (by omega)
      rw [hes, he, hnil, chainLookup, hcmp] at hv
      by_cases hmatch : Whole (lastChild table) ⟨2, [0x61], (1, [1])⟩ ∧ cstr [0x61] = x
      · rw [decide_eq_true hmatch] at hv
        exact ⟨(some.inj (some.inj hv)).symm, hmatch⟩
      · rw [decide_eq_false hmatch] at hv
        cases hv

theorem PlistTree.lastChild (htable : ∀ T, table = some T → T = lastIndexed) :
    PlistTree (lastChild table) 0 [0, 2, 1] := by
  obtain ⟨-, h0, -⟩ := lastChild_cells table
  obtain ⟨hd0, hd1, hd2⟩ := lastChild_data table
  have hdict := dictionary_lastChild htable
  have hall : ∀ x ∈ [0, 2, 1], x = 0 ∨ x = 2 ∨ x = 1 := by simp
  refine ⟨.node hdict.nodes.holds.children.toChain hdict.nodes.holds.forest, by decide,
    by rw [Heap.parent, h0]; rfl, fun x hx => ?_, fun x hx buff n hd => ?_, fun x hx ht n hd => ?_⟩ <;>
    obtain rfl | rfl | rfl := hall x hx
  · exact ⟨_, hd0⟩
  · exact ⟨_, hd2⟩
  · exact ⟨_, hd1⟩
  · cases hd0.symm.trans hd
  · cases hd2.symm.trans hd
  · cases hd1.symm.trans hd
  · obtain ⟨⟩ := some.inj (some.inj (hd0.symm.trans hd))
    refine ⟨_, hdict, fun _ b hb => ?_⟩
    obtain rfl := mem_singleton.mp hb
    rw [Hashable, keyData_of_data hd2]
    rintro _ ⟨⟩
    decide
  · cases hd2.symm.trans hd
  · cases hd1.symm.trans hd

/-- Nothing but the dictionary and its child is in memory. -/
def lastChildShared (table : Option DictTable) : Shared := ⟨lastChild table, fun _ => .original⟩

theorem parted_lastChild (htable : ∀ T, table = some T → T = lastIndexed) :
    Parted (lastChildShared table) := by
  obtain ⟨htop, h0, h1, h2⟩ := lastChild_cells table
  intro s b n hb hn
  have hown : ∀ c, c < 3 → Owns (lastChildShared table) s c := fun c hc =>
    ⟨Nat.lt_of_lt_of_eq hc htop.symm, hb.2⟩
  have hlt : b < 3 := htop ▸ hb.1
  have hkey : TableIn (Owns (lastChildShared table) s) lastIndexed := by
    intro i e he
    rw [lastIndexed] at he
    dsimp only at he
    split at he
    · rw [mem_singleton.mp he]
      exact ⟨hown 2 (by decide), hown 1 (by decide)⟩
    · cases he
  obtain rfl | rfl | rfl : b = 0 ∨ b = 1 ∨ b = 2 := by omega
  · obtain rfl := some.inj (h0.symm.trans hn)
    exact ⟨trivial, trivial, trivial, hown 2 (by decide), hown 1 (by decide),
      fun d hd T hT => by cases hd; cases hT; exact htable _ rfl ▸ hkey⟩
  · obtain rfl := some.inj (h1.symm.trans hn)
    exact ⟨trivial, hown 2 (by decide), hown 0 (by decide), trivial, hown 1 (by decide),
      fun d hd T hT => by cases hd; cases hT⟩
  · obtain rfl := some.inj (h2.symm.trans hn)
    exact ⟨hown 1 (by decide), hown 0 (by decide), hown 0 (by decide), trivial, hown 2 (by decide),
      fun d hd T hT => by cases hd; cases hT⟩

end LastChild

/-- A dictionary without a table is copied. -/
theorem copy_independent_child : Independent (lastChildShared none) 0 [0, 2, 1] := by
  have htable : ∀ T, (none : Option DictTable) = some T → T = lastIndexed := by
    intro T hT
    cases hT
  refine (copy_independent_iff (parted_lastChild htable) (PlistTree.lastChild htable)
    fun _ _ => rfl).mpr fun d hd T hT => ?_
  have hall : ∀ x ∈ [0, 2, 1], x = 0 ∨ x = 2 ∨ x = 1 := by simp
  obtain rfl | rfl | rfl := hall d hd
  · cases hT
  · cases hT
  · cases hT

/-- A dictionary that had more than 500 children is copied. -/
theorem copy_dependent : ∃ σ a fp, Parted σ ∧ PlistTree σ.heap a fp ∧
    (∀ x ∈ fp, σ.owner x = .original) ∧ ¬ Independent σ a fp := by
  have htable : ∀ T, some lastIndexed = some T → T = lastIndexed := fun _ hT => (some.inj hT).symm
  refine ⟨lastChildShared (some lastIndexed), 0, [0, 2, 1], parted_lastChild htable,
    PlistTree.lastChild htable, fun _ _ => rfl,
    (PlistTree.lastChild htable).dependent (parted_lastChild htable) (fun _ _ => rfl) mem_cons_self
      (T := lastIndexed) (dictHashtable_of_data (lastChild_data _).1) fun hzero => ?_⟩
  have hcount : nodeNChildren (lastChild (some lastIndexed)) 0 = some 2 := rfl
  cases hcount.symm.trans hzero

end IDeviceStack.Libplist
