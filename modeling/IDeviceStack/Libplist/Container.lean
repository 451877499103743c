/-
# `Libplist.Container` — a node and the trees in its list

What arrays and dictionaries have in common: a container node `p` whose child
list holds the roots of `items`, each item with its own tree, no address used
twice (`Holds`).  `node_attach`, `node_insert` and `plist_free_node` are lifted
from the list of roots to the list of items: the trees that stay keep their
cells, a tree that goes is freed as a whole.
-/
import IDeviceStack.Libplist.Free

namespace IDeviceStack.Libplist

open Lib Cnary List

/-- Node `p` holds `items`; its first child points back to `first`. -/
structure Holds (h : PHeap) (p : Nat) (first : Ref) (items : List Item) : Prop where
  children : Children h p first (roots items)
  forest : Forest h items
  nodup : (p :: foot items).Nodup

/-- A tree that shares no address with the container. -/
structure Loose (h : PHeap) (p : Nat) (items : List Item) (t : Item) : Prop where
  tree : Tree h t.1 t.2
  nodup : t.2.Nodup
  out : ∀ b ∈ t.2, b ∉ p :: foot items

theorem Loose.of_out {h h' : PHeap} {p : Nat} {items items' : List Item} {t : Item}
    (ht : Loose h p items t) (hout : ∀ b, b ∉ p :: foot items → h'.cells b = h.cells b)
    (hsub : foot items' ⊆ foot items) : Loose h' p items' t := by
  refine ⟨ht.tree.congr ?_ fun b hb => hout b (ht.out b (mem_of_mem_tail hb)), ht.nodup,
    fun b hb hmem => ht.out b hb ?_⟩
  · simp only [Heap.list, hout t.1 (ht.out t.1 ht.tree.root_mem)]
  · rcases mem_cons.mp hmem with rfl | hmem
    · exact mem_cons_self
    · exact mem_cons_of_mem p (hsub hmem)

theorem Loose.leaf {h : PHeap} {p a : Nat} {items : List Item} (last : Ref)
    (hl : h.list a = some ⟨.null, last, 0⟩) (hout : a ∉ p :: foot items) :
    Loose h p items (a, [a]) := by
  have hc : Chain h a .null last [] := ⟨hl, trivial, by simp, by simp, .inl rfl⟩
  refine ⟨Tree.leaf hc, by simp, fun b hb => ?_⟩
  rw [mem_singleton.mp hb]
  exact hout

theorem Children.of_cells {h h' : PHeap} {p : Nat} {first : Ref} {xs : List Nat}
    (hc : Children h p first xs) (heq : ∀ b ∈ p :: xs, h'.cells b = h.cells b) :
    Children h' p first xs := by
  refine ⟨hc.toChain.of_cells heq, ?_⟩
  simp only [Heap.count, heq p mem_cons_self]
  exact hc.count

theorem foot_middle (l r : List Item) (t : Item) :
    (foot (l ++ t :: r)).Perm (t.2 ++ foot (l ++ r)) :=
  (perm_middle : (l ++ t :: r).Perm (t :: (l ++ r))).flatMap_right _

namespace Holds

variable {h h' : PHeap} {p : Nat} {first : Ref} {items : List Item} {t : Item}

theorem root_ne (hh : Holds h p first items) {x : Nat} (hx : x ∈ roots items) : x ≠ p :=
  hh.children.toChain.ne hx

theorem of_cells (hh : Holds h p first items)
    (heq : ∀ b ∈ p :: foot items, h'.cells b = h.cells b) : Holds h' p first items := by
  refine ⟨Children.of_cells hh.children fun b hb => heq b ?_,
    hh.forest.of_cells fun b hb => heq b (mem_cons_of_mem p hb), hh.nodup⟩
  rcases mem_cons.mp hb with rfl | hb
  · exact mem_cons_self
  · exact mem_cons_of_mem p (hh.forest.root_mem hb)

theorem nodup_cons (hh : Holds h p first items) (ht : Loose h p items t) :
    (p :: foot (t :: items)).Nodup := by
  obtain ⟨hp, hnd⟩ := List.nodup_cons.mp hh.nodup
  simp only [foot_cons, List.nodup_cons, List.mem_append, not_or, List.nodup_append]
  refine ⟨⟨fun hpt => ht.out p hpt List.mem_cons_self, hp⟩, ht.nodup, hnd, ?_⟩
  rintro b hb _ hb' rfl
  exact ht.out b hb (mem_cons_of_mem p hb')

theorem root_out (hh : Holds h p first items) (ht : Loose h p items t) :
    t.1 ∉ p :: roots items := by
  intro hmem
  refine ht.out t.1 ht.tree.root_mem ?_
  rcases mem_cons.mp hmem with heq | hroot
  · exact heq ▸ mem_cons_self
  · exact mem_cons_of_mem p (hh.forest.root_mem hroot)

theorem add {first' : Ref} {l r : List Item} (hh : Holds h p first (l ++ r))
    (ht : Loose h p (l ++ r) t) (hc : Children h' p first' (roots (l ++ t :: r)))
    (hf : Frame h h' p (t.1 :: roots (l ++ r))) : Holds h' p first' (l ++ t :: r) := by
  have hnd := hh.nodup_cons ht
  obtain ⟨hp, hndf⟩ := List.nodup_cons.mp hnd
  have hall : Forest h (t :: (l ++ r)) := by
    intro u hu
    rcases mem_cons.mp hu with rfl | hu
    · exact ht.tree
    · exact hh.forest u hu
  have hall' : Forest h' (t :: (l ++ r)) := by
    refine hall.congr hndf (fun x hx => hf.list x ?_) fun b hb hbr => hf.out b ?_
    · rintro rfl
      exact hp (hall.root_mem hx)
    · intro hmem
      rcases mem_cons.mp hmem with rfl | hmem
      · exact hp hb
      · exact hbr hmem
  refine ⟨hc, fun u hu => hall' u (perm_middle.mem_iff.mp hu), ?_⟩
  exact ((foot_middle l r t).cons p).nodup_iff.mpr hnd

theorem attach (hh : Holds h p first items) (ht : Loose h p items t) :
    ∃ h', nodeAttach h p t.1 = some h' ∧
      Holds h' p (if items = [] then .list p else first) (items ++ [t]) ∧
      Frame h h' p (t.1 :: roots items) := by
  obtain ⟨h', hrun, hc, hf⟩ := hh.children.nodeAttach ht.tree.isSome (hh.root_out ht)
  have hnil : roots items = [] ↔ items = [] := map_eq_nil_iff
  simp only [hnil] at hc
  have hh' : Holds h p first (items ++ []) := by rwa [append_nil]
  have ht' : Loose h p (items ++ []) t := by rwa [append_nil]
  exact ⟨h', hrun, hh'.add ht' (by rw [roots_append]; exact hc) (by rwa [append_nil]), hf⟩

theorem insert (hh : Holds h p first items) (ht : Loose h p items t) (i : Nat) :
    ∃ h', nodeInsert h p i t.1 = some h' ∧
      Holds h' p (if items = [] then .list p else if i = 0 then .null else first)
        (items.take i ++ t :: items.drop i) ∧
      Frame h h' p (t.1 :: roots items) := by
  obtain ⟨h', hrun, hc, hf⟩ := hh.children.nodeInsert ht.tree.isSome (hh.root_out ht) i
  have hnil : roots items = [] ↔ items = [] := map_eq_nil_iff
  simp only [hnil] at hc
  have hsplit : items = items.take i ++ items.drop i := (take_append_drop i items).symm
  have hc' : Children h' p (if items = [] then .list p else if i = 0 then .null else first)
      (roots (items.take i ++ t :: items.drop i)) := by
    simpa [roots, map_take, map_drop] using hc
  refine ⟨h', hrun, Holds.add (hsplit ▸ hh) (hsplit ▸ ht) hc' ?_, hf⟩
  rwa [← hsplit]

theorem free {l r : List Item} (hh : Holds h p first (l ++ t :: r))
    (hok : l ++ r = [] → first = .list p) :
    ∃ h', plistFree h t.1 = some (h', some l.length) ∧ Holds h' p first (l ++ r) ∧
      (∀ b, b ∉ p :: foot (l ++ t :: r) → h'.cells b = h.cells b) ∧
      (∀ b, b ∉ t.2 → h'.data b = h.data b) ∧ h'.top = h.top := by
  have hroots : roots (l ++ t :: r) = roots l ++ t.1 :: roots r := by simp
  have hlr : roots l ++ roots r = roots (l ++ r) := by simp
  have hnd := ((foot_middle l r t).cons p).nodup_iff.mp hh.nodup
  simp only [List.nodup_cons, List.mem_append, not_or, List.nodup_append] at hnd
  obtain ⟨⟨hpt, hplr⟩, hndt, hndlr, hdisj⟩ := hnd
  have ht : Tree h t.1 t.2 := hh.forest t (by simp)
  have hflr : Forest h (l ++ r) := by
    intro u hu
    refine hh.forest u ?_
    simp only [mem_append, mem_cons] at hu ⊢
    exact hu.imp_right .inr
  have hc : Children h p first (roots l ++ t.1 :: roots r) := hroots ▸ hh.children
  have hnil : roots l ++ roots r = [] → first = .list p := by
    rw [hlr]
    exact fun h => hok (map_eq_nil_iff.mp h)
  obtain ⟨h1, hdet, hc1, hf1, -⟩ := hc.nodeDetach hnil
  rw [hlr] at hc1 hf1
  have hout : ∀ b ∈ p :: roots (l ++ r), b ∉ t.2 := by
    intro b hb hbt
    rcases mem_cons.mp hb with rfl | hb
    · exact hpt hbt
    · exact hdisj b hbt b (hflr.root_mem hb) rfl
  obtain ⟨h1', h', hdet', hfree, hfreed⟩ := plistFree_child hc.toChain ht hndt (hlr ▸ hout)
  obtain rfl : h1' = h1 := by
    rw [hdet] at hdet'
    exact (congrArg Prod.fst (Option.some.inj hdet')).symm
  have hflr1 : Forest h1' (l ++ r) := by
    refine hflr.congr hndlr (fun x hx => hf1.list x ?_) fun b hb hbr => hf1.out b ?_
    · rintro rfl
      exact hplr (hflr.root_mem hx)
    · intro hmem
      rcases mem_cons.mp hmem with rfl | hmem
      · exact hplr hb
      · exact hbr hmem
  have hlen : (roots l).length = l.length := length_map _
  refine ⟨h', hlen ▸ hfree, ?_, fun b hb => ?_, fun b hb => ?_, hfreed.top.trans hf1.top⟩
  · refine of_cells ⟨hc1, hflr1, List.nodup_cons.mpr ⟨hplr, hndlr⟩⟩ fun b hb => hfreed.kept b ?_
    rcases List.mem_cons.mp hb with rfl | hb
    · exact hpt
    · exact fun hbt => hdisj b hbt b hb rfl
  · have hmem : ∀ c, c ∈ foot (l ++ t :: r) ↔ c ∈ t.2 ∨ c ∈ foot (l ++ r) := by
      intro c
      rw [(foot_middle l r t).mem_iff, mem_append]
    simp only [mem_cons, hmem, not_or] at hb
    rw [hfreed.kept b hb.2.1, hf1.out b]
    simp only [mem_cons, not_or]
    exact ⟨hb.1, fun hbr => hb.2.2 (hflr.root_mem hbr)⟩
  · rw [Heap.data, hfreed.kept b hb]
    exact congrFun hf1.data b

end Holds

theorem plistGetNodeType_of_data {h : PHeap} {p : Nat} {d : PlistData}
    (hd : h.data p = some (some d)) : plistGetNodeType h p = some d.type := by
  have hget : plistGetData h p = some (some d) := hd
  simp only [plistGetNodeType, hget, Option.bind_eq_bind, Option.bind_some]

theorem plistNewNode_holds (h : PHeap) (d : PlistData) :
    (plistNewNode h d).1 = h.top ∧
      Holds (plistNewNode h d).2 h.top (.list h.top) [] ∧
      Tree (plistNewNode h d).2 h.top [h.top] ∧
      (plistNewNode h d).2.data h.top = some (some d) ∧
      (plistNewNode h d).2.top = h.top + 1 ∧
      ∀ b, b ≠ h.top → (plistNewNode h d).2.cells b = h.cells b := by
  have hcell : (plistNewNode h d).2.cells h.top = some
      { next := .null, prev := .null, count := 0, isRoot := true, isLeaf := true, data := some d
        depth := 0, parent := .null, children := listInit h.top } := if_pos rfl
  have hchain : Chain (plistNewNode h d).2 h.top (.list h.top) (.list h.top) [] :=
    ⟨by simp [Heap.list, hcell, listInit], trivial, by simp, by simp, .inr rfl⟩
  refine ⟨rfl, ⟨⟨hchain, by simp [Heap.count, hcell]⟩, by simp [Forest], by simp⟩,
    Tree.leaf hchain, by simp [Heap.data, hcell], rfl, fun b hb => if_neg hb⟩

end IDeviceStack.Libplist
