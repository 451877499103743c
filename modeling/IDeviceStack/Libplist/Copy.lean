/-
# `Libplist.Copy` — `plist_copy`

A copy is made node by node, parents first, so the nodes of the copy are handed out in the order of
the footprint of the tree (`copyOf`).  Each has the data and the children of the node it was made
from (`Copied`), with one exception: the hash table of a dictionary is filled with the nodes of the
original.
-/
import IDeviceStack.Libplist.Lookups
import IDeviceStack.Libplist.Regions

namespace IDeviceStack.Libplist

open Lib Cnary List

/-- The data of the new node: its own `buff` or `strval`; the hash table that is made for a
dictionary enters the children of `node`. -/
def copyData (h : PHeap) (node : Nat) (data : PlistData) : Option PlistData :=
  match data.value with
  | .scalar (.data buff) =>
    if data.length ≤ buff.length then
      some { data with value := .scalar (.data (buff.take data.length)) }
    else
      none
  | .scalar (.key strval) => some { data with value := .scalar (.key (cstr strval)) }
  | .scalar (.string strval) => some { data with value := .scalar (.string (cstr strval)) }
  | .dict (some _) => do
      let current ← nodeFirstChild h node
      let ht ← indexDict h (h.top + 1) current hashTableNew
      some { data with value := .dict (some ht) }
  | _ => some data

/-- The new node goes to its parent, if there is one. -/
def attachTo (h : PHeap) (parent : Ref) (newnode : Nat) : Option PHeap :=
  match parent with
  | .node p => nodeAttach h p newnode
  | _ => some h

mutual

/-- `plist_copy_node`: the node that was made.  `parent` is what `parent_node_ptr` points to. -/
def plistCopyNode : Nat → PHeap → Nat → Ref → Option (PHeap × Nat)
  | 0, _, _, _ => none
  | fuel + 1, h, node, parent => do
      match ← plistGetData h node with
      | none => none
      | some data => do
          let newdata ← copyData h node data
          let (newnode, h₁) := plistNewNode h newdata
          let h₂ ← attachTo h₁ parent newnode
          let n ← h₂.cells node
          let h₃ ← plistCopyChildren fuel h₂ n.children.beginRef newnode
          some (h₃, newnode)

/-- The iterator loop of `plist_copy_node`. -/
def plistCopyChildren : Nat → PHeap → Ref → Nat → Option PHeap
  | 0, _, _, _ => none
  | _ + 1, h, .null, _ => some h
  | fuel + 1, h, .node ch, newnode => do
      let next ← h.getNext (.node ch)
      let (h₁, _) ← plistCopyNode fuel h ch (.node newnode)
      plistCopyChildren fuel h₁ next newnode
  | _ + 1, _, .list _, _ => none

end

def plistCopy (h : PHeap) (node : Nat) : Option (PHeap × Nat) :=
  plistCopyNode (2 * h.top + 1) h node .null

/-! ## What is copied -/

/-- The data of node `a` can be copied, and the copy will be `d'`, however many of the nodes above
`h₀` there are already. -/
def CopiesTo (h₀ : PHeap) (a : Nat) (d' : PlistData) : Prop :=
  ∃ d, h₀.data a = some (some d) ∧
    ∀ h, SameIn (· < h₀.top) h₀ h → copyData h a d = some d'

/-- The tree at `a` has a copy: `f` leads to it. -/
inductive Copied (f : Nat → Nat) (h₀ h : PHeap) : Nat → List Nat → Prop
  | node {a : Nat} {first last : Ref} {ts : List Item} {d' : PlistData} :
      Chain h₀ a first last (roots ts) → CopiesTo h₀ a d' → h.data (f a) = some (some d') →
      Children h (f a) (.list (f a)) ((roots ts).map f) → (∀ t ∈ ts, Copied f h₀ h t.1 t.2) →
      Copied f h₀ h a (a :: foot ts)

/-- Going from `h` to `h'` touched the child list of node `q` and the links of its children `xs`,
and made new nodes. -/
structure Grows (h h' : PHeap) (q : Nat) (xs : List Nat) : Prop where
  out : ∀ b, b < h.top → b ∉ q :: xs → h'.cells b = h.cells b
  links : ∀ b, b < h.top → b ∉ xs → h'.links b = h.links b
  list : ∀ b, b < h.top → b ≠ q → h'.list b = h.list b
  count : ∀ b, b < h.top → b ≠ q → h'.count b = h.count b
  data : ∀ b, b < h.top → h'.data b = h.data b
  parent : ∀ b, b < h.top → h'.parent b = h.parent b
  top : h.top ≤ h'.top

section Grows

variable {h h' h'' : PHeap} {q a : Nat} {xs : List Nat} {first : Ref}

theorem Grows.rfl : Grows h h q xs :=
  ⟨fun _ _ _ => Eq.refl _, fun _ _ _ => Eq.refl _, fun _ _ _ => Eq.refl _, fun _ _ _ => Eq.refl _,
    fun _ _ => Eq.refl _, fun _ _ => Eq.refl _, Nat.le_refl _⟩

theorem Grows.trans {ys : List Nat} (h1 : Grows h h' q xs) (h2 : Grows h' h'' q (xs ++ ys))
    (hys : ∀ y ∈ ys, h.top ≤ y) : Grows h h'' q xs := by
  have hin : ∀ b, b < h.top → b ∉ xs → b ∉ xs ++ ys := by
    intro b hb hbx hmem
    rcases mem_append.mp hmem with hmem | hmem
    · exact hbx hmem
    · exact absurd (hys b hmem) (Nat.not_le.mpr hb)
  have hlt : ∀ b, b < h.top → b < h'.top := fun b hb => Nat.lt_of_lt_of_le hb h1.top
  refine ⟨fun b hb hbq => ?_, fun b hb hbx => ?_, fun b hb hbq => ?_, fun b hb hbq => ?_,
    fun b hb => ?_, fun b hb => ?_, h1.top.trans h2.top⟩
  · refine (h2.out b (hlt b hb) ?_).trans (h1.out b hb hbq)
    have hbne : b ≠ q := ne_of_not_mem_cons hbq
    exact not_mem_cons_of_ne_of_not_mem hbne
      (hin b hb (not_mem_of_not_mem_cons hbq))
  · exact (h2.links b (hlt b hb) (hin b hb hbx)).trans (h1.links b hb hbx)
  · exact (h2.list b (hlt b hb) hbq).trans (h1.list b hb hbq)
  · exact (h2.count b (hlt b hb) hbq).trans (h1.count b hb hbq)
  · exact (h2.data b (hlt b hb)).trans (h1.data b hb)
  · exact (h2.parent b (hlt b hb)).trans (h1.parent b hb)

theorem Grows.new (h : PHeap) (d : PlistData) : Grows h (plistNewNode h d).2 q xs := by
  obtain ⟨-, -, -, -, htop, hcells⟩ := plistNewNode_holds h d
  have heq : ∀ b, b < h.top → (plistNewNode h d).2.cells b = h.cells b := fun b hb =>
    hcells b (Nat.ne_of_lt hb)
  exact ⟨fun b hb _ => heq b hb, fun b hb _ => congrArg (Option.map _) (heq b hb),
    fun b hb _ => congrArg (Option.map _) (heq b hb),
    fun b hb _ => congrArg (Option.map _) (heq b hb), fun b hb => congrArg (Option.map _) (heq b hb),
    fun b hb => congrArg (Option.map _) (heq b hb), htop ▸ Nat.le_succ _⟩

theorem Grows.attach (hg : Grows h h' q xs) (ha : h.top ≤ a) (hc : Children h' q first xs)
    (hsome : (h'.cells a).isSome) (hrun : nodeAttach h' q a = some h'')
    (hf : Frame h' h'' q (a :: xs)) : Grows h h'' q xs := by
  obtain ⟨hlinks, hparent, hcount⟩ := hc.nodeAttach_views hsome hrun
  have hne : ∀ b, b < h.top → b ≠ a := fun b hb => by omega
  refine ⟨fun b hb hbq => ?_, fun b hb hbx => ?_, fun b hb hbq => ?_, fun b hb hbq => ?_,
    fun b hb => ?_, fun b hb => ?_, hf.top.symm ▸ hg.top⟩
  · refine (hf.out b ?_).trans (hg.out b hb hbq)
    simp only [mem_cons, not_or] at hbq ⊢
    exact ⟨hbq.1, hne b hb, hbq.2⟩
  · exact (hlinks b (not_mem_cons_of_ne_of_not_mem (hne b hb) hbx)).trans (hg.links b hb hbx)
  · exact (hf.list b hbq).trans (hg.list b hb hbq)
  · exact (hcount b hbq).trans (hg.count b hb hbq)
  · exact (congrFun hf.data b).trans (hg.data b hb)
  · exact (hparent b (hne b hb)).trans (hg.parent b hb)

theorem Grows.below (hg : Grows h h' q xs) (hbelow : Grows h' h'' a []) (ha : h.top ≤ a) :
    Grows h h'' q xs := by
  have hlt : ∀ b, b < h.top → b < h'.top := fun b hb => Nat.lt_of_lt_of_le hb hg.top
  have hne : ∀ b, b < h.top → b ≠ a := fun b hb => by omega
  refine ⟨fun b hb hbq => ?_, fun b hb hbx => ?_, fun b hb hbq => ?_, fun b hb hbq => ?_,
    fun b hb => ?_, fun b hb => ?_, hg.top.trans hbelow.top⟩
  · exact (hbelow.out b (hlt b hb) (by simpa using hne b hb)).trans (hg.out b hb hbq)
  · exact (hbelow.links b (hlt b hb) not_mem_nil).trans (hg.links b hb hbx)
  · exact (hbelow.list b (hlt b hb) (hne b hb)).trans (hg.list b hb hbq)
  · exact (hbelow.count b (hlt b hb) (hne b hb)).trans (hg.count b hb hbq)
  · exact (hbelow.data b (hlt b hb)).trans (hg.data b hb)
  · exact (hbelow.parent b (hlt b hb)).trans (hg.parent b hb)

theorem SameIn.grows {h₀ : PHeap} (hs : SameIn (· < h₀.top) h₀ h) (hg : Grows h h' q xs)
    (hq : ∀ x ∈ q :: xs, h₀.top ≤ x) : SameIn (· < h₀.top) h₀ h' := by
  refine ⟨fun b hb => (hg.out b (Nat.lt_of_lt_of_le hb hs.top) fun hmem => ?_).trans
    (hs.cells b hb), hs.top.trans hg.top⟩
  exact absurd (hq b hmem) (Nat.not_le.mpr hb)

theorem Copied.root_mem {f : Nat → Nat} {h₀ : PHeap} {fp : List Nat} (hc : Copied f h₀ h a fp) :
    a ∈ fp := by
  cases hc
  exact mem_cons_self

theorem Copied.of_cells {f : Nat → Nat} {h₀ : PHeap} {fp : List Nat} (hc : Copied f h₀ h a fp)
    (hlist : h'.list (f a) = h.list (f a)) (hcount : h'.count (f a) = h.count (f a))
    (hdata : h'.data (f a) = h.data (f a))
    (hbelow : ∀ x ∈ fp.tail, h'.cells (f x) = h.cells (f x)) : Copied f h₀ h' a fp := by
  induction hc with
  | node hchain hto hd hch hts ih =>
    rename_i a first last ts d'
    have hroots : ∀ t ∈ ts, t.1 ∈ foot ts := fun t ht => mem_foot ht (hts t ht).root_mem
    have hcells : ∀ x ∈ (roots ts).map f, h'.cells x = h.cells x := by
      intro x hx
      obtain ⟨y, hy, rfl⟩ := mem_map.mp hx
      obtain ⟨t, ht, rfl⟩ := mem_map.mp hy
      exact hbelow t.1 (hroots t ht)
    refine .node hchain hto (hdata.trans hd) (hch.of_views hlist hcount
      (fun x hx => congrArg (Option.map _) (hcells x hx))
      fun x hx => congrArg (Option.map _) (hcells x hx)) fun t ht => ?_
    have hroot := hbelow t.1 (hroots t ht)
    exact ih t ht (congrArg (Option.map _) hroot) (congrArg (Option.map _) hroot)
      (congrArg (Option.map _) hroot) fun x hx =>
        hbelow x (mem_foot ht (mem_of_mem_tail hx))

end Grows

/-! ## The copy of a forest -/

section Forest

variable {f : Nat → Nat} {h₀ : PHeap}

/-- Trees of `h₀` that can be copied, and to which addresses `f` will lead. -/
structure Copyable (f : Nat → Nat) (h₀ h : PHeap) (ts : List Item) : Prop where
  forest : Forest h₀ ts
  data : ∀ x ∈ foot ts, ∃ d', CopiesTo h₀ x d'
  placed : (foot ts).map f = List.range' h.top (foot ts).length

/-- Going from `h` to `h'` put copies of the trees `ts` behind the children `xs` of node `q`. -/
structure ForestCopied (f : Nat → Nat) (h₀ h h' : PHeap) (q : Nat) (xs : List Nat)
    (ts : List Item) : Prop where
  children : Children h' q (.list q) (xs ++ (roots ts).map f)
  copied : ∀ t ∈ ts, Copied f h₀ h' t.1 t.2
  grows : Grows h h' q xs
  top : h'.top = h.top + (foot ts).length
  keeps : ∀ S : Nat → Prop, (∀ b, h.top ≤ b → b < h.top + (foot ts).length → S b) → S q →
    (∀ x ∈ foot ts, ∀ d', CopiesTo h₀ x d' → DataIn S (some d')) → PlistsIn S h → Keeps S h h'

theorem mem_placed {xs : List Nat} {n : Nat} (hp : xs.map f = List.range' n xs.length) {x : Nat}
    (hx : x ∈ xs) : n ≤ f x ∧ f x < n + xs.length := by
  have hmem : f x ∈ xs.map f := mem_map_of_mem hx
  rw [hp, mem_range'_1] at hmem
  exact hmem

theorem placed_append {xs ys : List Nat} {n : Nat} :
    (xs ++ ys).map f = List.range' n (xs ++ ys).length ↔
      xs.map f = List.range' n xs.length ∧ ys.map f = List.range' (n + xs.length) ys.length := by
  have hsplit : List.range' n (xs ++ ys).length =
      List.range' n xs.length ++ List.range' (n + xs.length) ys.length := by
    rw [length_append, List.range'_append_1]
  rw [hsplit, map_append]
  refine ⟨fun heq => append_inj heq ?_, fun ⟨h1, h2⟩ => by rw [h1, h2]⟩
  rw [length_map, length_range']

theorem foot_singleton (t : Item) : foot [t] = t.2 := by simp

theorem ForestCopied.cons {h h1 h2 : PHeap} {q : Nat} {xs : List Nat} {t : Item} {ts : List Item}
    (hq : ∀ x ∈ q :: xs, x < h.top) (ht : Copyable f h₀ h [t])
    (hfirst : ForestCopied f h₀ h h1 q xs [t])
    (hrest : ForestCopied f h₀ h1 h2 q (xs ++ [f t.1]) ts) :
    ForestCopied f h₀ h h2 q xs (t :: ts) := by
  have hplaced := ht.placed
  have htop := hfirst.top
  rw [foot_singleton] at hplaced htop
  have htree : Tree h₀ t.1 t.2 := ht.forest t mem_cons_self
  have hnd : (t.2.map f).Nodup := hplaced ▸ nodup_range'
  have hat : ∀ x ∈ t.2, h.top ≤ f x ∧ f x < h1.top := by
    intro x hx
    rw [htop]
    exact mem_placed hplaced hx
  have hroot := hat t.1 htree.root_mem
  have hne : ∀ x ∈ t.2, f x ∉ q :: xs := fun x hx hmem =>
    absurd (hq _ hmem) (Nat.not_lt.mpr (hat x hx).1)
  refine ⟨?_, fun u hu => ?_, ?_, ?_, fun S hnew hSq hdata hc => ?_⟩
  · rw [roots_cons, map_cons, ← singleton_append, ← append_assoc]
    exact hrest.children
  · rcases mem_cons.mp hu with rfl | hu
    · have hrootq : f u.1 ≠ q := ne_of_not_mem_cons (hne u.1 htree.root_mem)
      refine (hfirst.copied u mem_cons_self).of_cells (hrest.grows.list _ hroot.2 hrootq)
        (hrest.grows.count _ hroot.2 hrootq) (hrest.grows.data _ hroot.2) fun x hx => ?_
      have hxu := mem_of_mem_tail hx
      refine hrest.grows.out _ (hat x hxu).2 fun hmem => ?_
      rw [← cons_append] at hmem
      rcases mem_append.mp hmem with hmem | hmem
      · exact hne x hxu hmem
      · -- the root comes once in the footprint
        have hxroot : x = u.1 :=
          inj_on_of_nodup_map hnd hxu htree.root_mem (mem_singleton.mp hmem)
        exact htree.tail_nodup (List.Nodup.of_map f hnd) (hxroot ▸ hx)
    · exact hrest.copied u hu
  · exact hfirst.grows.trans hrest.grows fun y hy => mem_singleton.mp hy ▸ hroot.1
  · rw [hrest.top, htop, foot_cons, length_append, Nat.add_assoc]
  · rw [foot_cons] at hnew hdata
    rw [length_append] at hnew
    have s1 := hfirst.keeps S (fun b hb hlt => hnew b hb (by rw [foot_singleton] at hlt; omega)) hSq
      (fun x hx => hdata x (mem_append_left _ (foot_singleton t ▸ hx))) hc
    refine s1.trans (hrest.keeps S (fun b hb hlt => hnew b ?_ ?_) hSq
      (fun x hx => hdata x (mem_append_right _ hx)) s1.closed)
    · omega
    · omega

/-- `plistCopyNode` is right with this much fuel. -/
def CopiesTrees (f : Nat → Nat) (h₀ : PHeap) (fuel : Nat) : Prop :=
  ∀ (h : PHeap) (q : Nat) (xs : List Nat) (t : Item), SameIn (· < h₀.top) h₀ h →
    Copyable f h₀ h [t] → (∀ x ∈ q :: xs, h₀.top ≤ x) → Children h q (.list q) xs →
    2 * t.2.length ≤ fuel →
    ∃ h', plistCopyNode fuel h t.1 (.node q) = some (h', f t.1) ∧
      ForestCopied f h₀ h h' q xs [t]

/-- `plistCopyChildren` is right with this much fuel. -/
def CopiesForests (f : Nat → Nat) (h₀ : PHeap) (fuel : Nat) : Prop :=
  ∀ (h : PHeap) (q : Nat) (xs : List Nat) (ts : List Item) (b : Ref), SameIn (· < h₀.top) h₀ h →
    Copyable f h₀ h ts → Seg .node h₀.links b .null (roots ts) → (∀ x ∈ q :: xs, h₀.top ≤ x) →
    Children h q (.list q) xs → 2 * (foot ts).length < fuel →
    ∃ h', plistCopyChildren fuel h (headRef .node (roots ts) .null) q = some h' ∧
      ForestCopied f h₀ h h' q xs ts

theorem Copyable.head {h : PHeap} {t : Item} {ts : List Item} (hc : Copyable f h₀ h (t :: ts)) :
    Copyable f h₀ h [t] := by
  have hplaced := hc.placed
  rw [foot_cons] at hplaced
  refine ⟨fun u hu => hc.forest u ?_, fun x hx => hc.data x ?_, ?_⟩
  · exact mem_singleton.mp hu ▸ mem_cons_self
  · rw [foot_cons]
    exact mem_append_left _ (foot_singleton t ▸ hx)
  · rw [foot_singleton]
    exact (placed_append.mp hplaced).1

theorem Copyable.tail {h h' : PHeap} {t : Item} {ts : List Item} (hc : Copyable f h₀ h (t :: ts))
    (htop : h'.top = h.top + t.2.length) : Copyable f h₀ h' ts := by
  have hplaced := hc.placed
  rw [foot_cons] at hplaced
  refine ⟨fun u hu => hc.forest u (mem_cons_of_mem t hu), fun x hx => hc.data x ?_, ?_⟩
  · rw [foot_cons]
    exact mem_append_right _ hx
  · rw [htop]
    exact (placed_append.mp hplaced).2

theorem copiesForests_succ {fuel : Nat} (ihTree : CopiesTrees f h₀ fuel)
    (ih : CopiesForests f h₀ fuel) : CopiesForests f h₀ (fuel + 1) := by
  intro h q xs ts b hs hts hseg hq hch hfuel
  cases ts with
  | nil =>
    refine ⟨h, rfl, ?_, fun t ht => (nomatch ht), Grows.rfl, rfl, fun S _ _ _ hc => hc.stays⟩
    rw [roots_nil, map_nil, append_nil]
    exact hch
  | cons t ts =>
    have htree : Tree h₀ t.1 t.2 := hts.forest t mem_cons_self
    have hlen : 1 ≤ t.2.length := length_pos_of_mem htree.root_mem
    rw [foot_cons, length_append] at hfuel
    obtain ⟨hnext, hseg⟩ := hseg
    have hlt : ∀ x ∈ q :: xs, x < h.top := fun x hx => hch.lt_top hx
    obtain ⟨h1, hrun1, hfirst⟩ := ihTree h q xs t hs hts.head hq hch (by omega)
    have htop := hfirst.top
    rw [foot_singleton] at htop
    have hroot : h.top ≤ f t.1 := by
      have hplaced := hts.head.placed
      rw [foot_singleton] at hplaced
      exact (mem_placed hplaced htree.root_mem).1
    have hq1 : ∀ x ∈ q :: (xs ++ [f t.1]), h₀.top ≤ x := by
      intro x hx
      rw [← cons_append] at hx
      rcases mem_append.mp hx with hx | hx
      · exact hq x hx
      · exact mem_singleton.mp hx ▸ hs.top.trans hroot
    obtain ⟨h2, hrun2, hrest⟩ := ih h1 q (xs ++ [f t.1]) ts (.node t.1) (hs.grows hfirst.grows hq)
      (hts.tail htop) hseg hq1 hfirst.children (by omega)
    refine ⟨h2, ?_, ForestCopied.cons hlt hts.head hfirst hrest⟩
    have hget : h.getNext (.node t.1) = some (headRef .node (roots ts) .null) := by
      have hcell := hs.cells t.1 (Heap.lt_top htree.isSome)
      have hnext0 := getNext_of_links hnext
      rw [Heap.getNext] at hnext0 ⊢
      rwa [hcell]
    simp only [roots_cons, headRef_cons, plistCopyChildren, hget, hrun1, Option.bind_eq_bind,
      Option.bind_some]
    exact hrun2

theorem copiesTrees_succ {fuel : Nat} (ih : CopiesForests f h₀ fuel) :
    CopiesTrees f h₀ (fuel + 1) := by
  intro h q xs t hs ht hq hch hfuel
  obtain ⟨a, fp⟩ := t
  obtain ⟨hforest, hdata, hplaced⟩ := ht
  have htree : Tree h₀ a fp := hforest (a, fp) mem_cons_self
  rw [foot_singleton] at hdata hplaced
  dsimp only at hdata hplaced hfuel
  cases htree with
  | node hchain hts =>
    rename_i first last us
    rw [length_cons] at hfuel
    obtain ⟨d', hto⟩ := hdata a mem_cons_self
    obtain ⟨d, hd, hcopy⟩ := hto
    have hcell0 := fun {h : PHeap} (hs : SameIn (· < h₀.top) h₀ h) =>
      hs.cells a (Heap.lt_top hchain.isSome)
    have hget : plistGetData h a = some (some d) :=
      (congrArg (Option.map Node.data) (hcell0 hs)).trans hd
    -- the new node
    obtain ⟨-, hnew, -, hd1, htop1, hcells1⟩ := plistNewNode_holds h d'
    obtain ⟨h1, hh1⟩ : ∃ h1, h1 = (plistNewNode h d').2 := ⟨_, rfl⟩
    rw [← hh1] at hnew hd1 htop1 hcells1
    have hgrow1 : Grows h h1 q xs := hh1 ▸ Grows.new h d'
    rw [map_cons, length_cons, List.range'_succ, List.cons.injEq] at hplaced
    obtain ⟨hfa, hplaced⟩ := hplaced
    have hlt : ∀ x ∈ q :: xs, x < h.top := fun x hx => hch.lt_top hx
    have hout : h.top ∉ q :: xs := fun hmem => absurd (hlt _ hmem) (Nat.lt_irrefl _)
    have hqtop : h.top ≠ q := ne_of_not_mem_cons hout
    have hch1 : Children h1 q (.list q) xs :=
      Children.of_cells hch fun b hb => hcells1 b (Nat.ne_of_lt (hlt b hb))
    have hsome1 : (h1.cells h.top).isSome := hnew.children.isSome
    -- is attached
    obtain ⟨h2, hatt, hch2, hf⟩ := hch1.nodeAttach hsome1 hout
    rw [ite_self] at hch2
    have hcount2 := (hch1.nodeAttach_views hsome1 hatt).2.2 h.top hqtop
    have hgrow2 : Grows h h2 q xs := hgrow1.attach (Nat.le_refl _) hch1 hsome1 hatt hf
    have hown2 : Children h2 h.top (.list h.top) [] := .childless
      ((hf.list h.top hqtop).trans hnew.children.list) (hcount2.trans hnew.children.count)
    have hs2 := hs.grows hgrow2 hq
    have htop2 : h2.top = h.top + 1 := hf.top.trans htop1
    -- and gets copies of the children
    have hus : Copyable f h₀ h2 us :=
      ⟨hts, fun x hx => hdata x (mem_cons_of_mem a hx), by rw [htop2]; exact hplaced⟩
    have hbase : ∀ x ∈ [h.top], h₀.top ≤ x := fun x hx => mem_singleton.mp hx ▸ hs.top
    obtain ⟨h3, hrun3, hbelow⟩ := ih h2 h.top [] us first hs2 hus hchain.seg hbase hown2 (by omega)
    obtain ⟨n, hn, hlist⟩ := cell_of_list hchain.list
    have hn2 : h2.cells a = some n := (hcell0 hs2).trans hn
    refine ⟨h3, ?_, ?_, fun t ht => ?_, hgrow2.below hbelow.grows (Nat.le_refl _), ?_,
      fun S hS hSq hSd hc => ?_⟩
    · have hnode : plistNewNode h d' = (h.top, h1) := by rw [hh1]; rfl
      simp only [plistCopyNode, hget, hcopy h hs, hnode, attachTo, hatt, hn2, hlist, hrun3,
        Option.bind_eq_bind, Option.bind_some, hfa]
    · have hbelow2 : ∀ x ∈ q :: (xs ++ [h.top]), x < h2.top := fun x hx => hch2.lt_top hx
      simp only [roots_cons, roots_nil, map_cons, map_nil, hfa]
      refine hch2.of_views (hbelow.grows.list q ?_ hqtop.symm) (hbelow.grows.count q ?_ hqtop.symm)
        (fun x hx => hbelow.grows.links x ?_ not_mem_nil) fun x hx =>
          hbelow.grows.parent x ?_
      · exact hbelow2 q mem_cons_self
      · exact hbelow2 q mem_cons_self
      · exact hbelow2 x (mem_cons_of_mem q hx)
      · exact hbelow2 x (mem_cons_of_mem q hx)
    · rw [mem_singleton.mp ht]
      have hd3 : h3.data (f a) = some (some d') := by
        rw [hfa, hbelow.grows.data h.top (by omega), hf.data]
        exact hd1
      have hch3 := hbelow.children
      rw [nil_append, ← hfa] at hch3
      exact .node hchain ⟨d, hd, hcopy⟩ hd3 hch3 hbelow.copied
    · rw [hbelow.top, htop2, foot_singleton, length_cons]
      omega
    · rw [foot_singleton, length_cons] at hS
      rw [foot_singleton] at hSd
      have hStop : S h.top := hS h.top (Nat.le_refl _) (by omega)
      have s1 : Keeps S h h1 :=
        hh1 ▸ PlistsIn.new hc hStop (hSd a mem_cons_self d' ⟨d, hd, hcopy⟩)
      have s2 : Keeps S h1 h2 := s1.closed.nodeAttach hSq hStop hatt
      have s3 := hbelow.keeps S (fun b hb hlt => hS b (by omega) (by omega)) hStop
        (fun x hx => hSd x (mem_cons_of_mem a hx)) s2.closed
      exact (s1.trans s2).trans s3

theorem copies (f : Nat → Nat) (h₀ : PHeap) (fuel : Nat) :
    CopiesTrees f h₀ fuel ∧ CopiesForests f h₀ fuel := by
  induction fuel with
  | zero =>
    refine ⟨fun h q xs t hs ht hq hch hfuel => ?_, fun h q xs ts b hs hts hseg hq hch hfuel => ?_⟩
    · have := length_pos_of_mem (ht.forest t mem_cons_self).root_mem
      omega
    · omega
  | succ fuel ih => exact ⟨copiesTrees_succ ih.2, copiesForests_succ ih.1 ih.2⟩

end Forest

/-! ## The copy of a tree -/

/-- The copy of node `x` of a tree with footprint `fp` that was copied in `h`. -/
def copyOf (h : PHeap) (fp : List Nat) (x : Nat) : Nat := h.top + fp.idxOf x

theorem map_copyOf (h : PHeap) {fp : List Nat} (hnd : fp.Nodup) :
    fp.map (copyOf h fp) = List.range' h.top fp.length := by
  refine ext_getElem (by simp) fun i hi _ => ?_
  rw [length_map] at hi
  rw [getElem_map, getElem_range', copyOf, hnd.idxOf_getElem i hi, Nat.one_mul]

/-- Going from `h` to `h'` made a copy of the tree at `a`, and touched nothing that was there. -/
structure TreeCopied (f : Nat → Nat) (h h' : PHeap) (a : Nat) (fp : List Nat) : Prop where
  copied : Copied f h h' a fp
  cells : ∀ b, b < h.top → h'.cells b = h.cells b
  top : h'.top = h.top + fp.length
  keeps : ∀ S : Nat → Prop, (∀ b, h.top ≤ b → b < h.top + fp.length → S b) →
    (∀ x ∈ fp, ∀ d', CopiesTo h x d' → DataIn S (some d')) → PlistsIn S h → Keeps S h h'

/-- **`plist_copy` makes a copy.** -/
theorem plistCopy_copied {h : PHeap} {a : Nat} {fp : List Nat} (ht : Tree h a fp) (hnd : fp.Nodup)
    (hdata : ∀ x ∈ fp, ∃ d', CopiesTo h x d') :
    ∃ h', plistCopy h a = some (h', copyOf h fp a) ∧ TreeCopied (copyOf h fp) h h' a fp := by
  have hplaced := map_copyOf h hnd
  have hlen := ht.length_le hnd
  obtain ⟨f, hf⟩ : ∃ f, f = copyOf h fp := ⟨_, rfl⟩
  rw [← hf] at hplaced ⊢
  clear hf
  cases ht with
  | node hchain hts =>
    rename_i first last us
    rw [length_cons] at hlen
    obtain ⟨d', hto⟩ := hdata a mem_cons_self
    obtain ⟨d, hd, hcopy⟩ := hto
    have hget : plistGetData h a = some (some d) := hd
    have hself : SameIn (· < h.top) h h := ⟨fun _ _ => rfl, Nat.le_refl _⟩
    obtain ⟨-, hnew, -, hd1, htop1, hcells1⟩ := plistNewNode_holds h d'
    obtain ⟨h1, hh1⟩ : ∃ h1, h1 = (plistNewNode h d').2 := ⟨_, rfl⟩
    rw [← hh1] at hnew hd1 htop1 hcells1
    have hsame : ∀ b, b < h.top → h1.cells b = h.cells b := fun b hb =>
      hcells1 b (Nat.ne_of_lt hb)
    have hs1 : SameIn (· < h.top) h h1 := ⟨hsame, by omega⟩
    rw [map_cons, length_cons, List.range'_succ, List.cons.injEq] at hplaced
    obtain ⟨hfa, hplaced⟩ := hplaced
    have hus : Copyable f h h1 us :=
      ⟨hts, fun x hx => hdata x (mem_cons_of_mem a hx), by rw [htop1]; exact hplaced⟩
    have hbase : ∀ x ∈ [h.top], h.top ≤ x := fun x hx => (mem_singleton.mp hx).ge
    obtain ⟨h2, hrun2, hbelow⟩ := (copies f h (2 * h.top)).2 h1 h.top [] us first hs1 hus
      hchain.seg hbase hnew.children (by omega)
    obtain ⟨n, hn, hlist⟩ := cell_of_list hchain.list
    have hn1 : h1.cells a = some n := (hsame a (Heap.lt_top hchain.isSome)).trans hn
    refine ⟨h2, ?_, ⟨?_, fun b hb => ?_, ?_, fun S hS hSd hc => ?_⟩⟩
    · have hnode : plistNewNode h d' = (h.top, h1) := by rw [hh1]; rfl
      simp only [plistCopy, plistCopyNode, hget, hcopy h hself, hnode, attachTo, hn1, hlist, hrun2,
        Option.bind_eq_bind, Option.bind_some, hfa]
    · have hd2 : h2.data (f a) = some (some d') := by
        rw [hfa, hbelow.grows.data h.top (by omega)]
        exact hd1
      have hch2 := hbelow.children
      rw [nil_append, ← hfa] at hch2
      exact .node hchain ⟨d, hd, hcopy⟩ hd2 hch2 hbelow.copied
    · refine (hbelow.grows.out b (by omega) ?_).trans (hsame b hb)
      simpa using Nat.ne_of_lt hb
    · rw [hbelow.top, htop1, length_cons]
      omega
    · rw [length_cons] at hS
      have hStop : S h.top := hS h.top (Nat.le_refl _) (by omega)
      have s1 : Keeps S h h1 :=
        hh1 ▸ PlistsIn.new hc hStop (hSd a mem_cons_self d' ⟨d, hd, hcopy⟩)
      exact s1.trans (hbelow.keeps S (fun b hb hlt => hS b (by omega) (by omega)) hStop
        (fun x hx => hSd x (mem_cons_of_mem a hx)) s1.closed)

end IDeviceStack.Libplist
