/-
# `Libplist.Free` — `plist_free_node` frees one tree

Whatever order the children of a node were attached in, `plist_free_node` takes
the node out of its parent's list and gives back exactly the addresses of its
tree (`Freed`).  Each child leaves the list before its own tree is freed, so the
list of the node stays a chain to the end; `node_destroy` then finds it empty.
The chain may end with a dangling `end`, which nothing reads any more.
-/
import IDeviceStack.Cnary.Tree
import IDeviceStack.Libplist.Plist

namespace IDeviceStack.Libplist

open Lib Cnary List Option

/-- Going from `h` to `h'` gave back the addresses `fp` and changed nothing else. -/
structure Freed (h h' : PHeap) (fp : List Nat) : Prop where
  gone : ∀ b ∈ fp, h'.cells b = none
  kept : ∀ b, b ∉ fp → h'.cells b = h.cells b
  top : h'.top = h.top

/-- `plistFreeBody` is right with this much fuel. -/
def FreesTrees (fuel : Nat) : Prop :=
  ∀ (h : PHeap) (a : Nat) (fp : List Nat), Tree h a fp → fp.Nodup → 3 * fp.length ≤ fuel + 1 →
    ∃ h', plistFreeBody fuel h a = some h' ∧ Freed h h' fp

/-- `plistFreeChildren` is right with this much fuel. -/
def FreesForests (fuel : Nat) : Prop :=
  ∀ (h : PHeap) (p : Nat) (first last : Ref) (ts : List Item), Chain h p first last (roots ts) →
    Forest h ts → (p :: foot ts).Nodup → 3 * (foot ts).length + 1 ≤ fuel →
    ∃ h' last', plistFreeChildren fuel h (headRef .node (roots ts) .null) = some h' ∧
      Chain h' p first last' [] ∧ (∀ b ∈ foot ts, h'.cells b = none) ∧
      (∀ b, b ∉ p :: foot ts → h'.cells b = h.cells b) ∧ h'.top = h.top

theorem nodeDestroy_childless {h : PHeap} {a fuel : Nat} {first last : Ref}
    (hc : Chain h a first last []) : nodeDestroy (fuel + 1) h a = some (h.release a) := by
  obtain ⟨n, hn, hlist⟩ := cell_of_list hc.list
  have hcount : ¬ n.children.count > 0 := by
    rw [hlist]
    simp
  simp only [nodeDestroy, hn, bind_eq_bind, bind_some, if_neg hcount]

theorem freesTrees_succ {fuel : Nat} (ih : FreesForests fuel) : FreesTrees (fuel + 1) := by
  intro h a fp ht hnd hfuel
  cases ht with
  | node hc hts =>
    rename_i first last ts
    have hts' : Forest h ts := hts
    -- clearing the data is seen by no chain and no tree
    have hclear : ∀ b, b ≠ a → (h.adjust a fun n => { n with data := none }).cells b = h.cells b :=
      fun b hb => if_neg hb
    have haroots : ∀ x ∈ roots ts, x ≠ a := fun x hx => hc.ne hx
    have hafoot : ∀ b ∈ foot ts, b ≠ a := by
      rintro b hb rfl
      exact (nodup_cons.mp hnd).1 hb
    have hc1 : Chain (h.adjust a fun n => { n with data := none }) a first last (roots ts) := by
      refine hc.congr ?_ (fun x hx => ?_) (fun x hx => ?_)
      · exact Heap.map_adjust (by intro n; rfl) a
      · simp only [Heap.links, hclear x (haroots x hx)]
      · simp only [Heap.parent, hclear x (haroots x hx)]
    have hts1 := hts'.of_cells fun b hb => hclear b (hafoot b hb)
    rw [length_cons] at hfuel
    obtain ⟨h', last', hrun, hc', hgone, hkept, htop⟩ := ih _ a first last ts hc1 hts1 hnd (by omega)
    obtain ⟨n, hn, hlist⟩ := cell_of_list hc1.list
    refine ⟨h'.release a, ?_, ?_, ?_, htop⟩
    · simp only [plistFreeBody, Heap.modify_eq hc.isSome, bind_eq_bind, bind_some, hn, hlist, hrun]
      exact nodeDestroy_childless hc'
    · intro b hb
      by_cases hba : b = a
      · simp [Heap.release, hba]
      · simp only [Heap.release, if_neg hba]
        exact hgone b ((mem_cons.mp hb).resolve_left hba)
    · intro b hb
      have hba : b ≠ a := ne_of_not_mem_cons hb
      simp only [Heap.release, if_neg hba]
      exact (hkept b hb).trans (hclear b hba)

theorem freesForests_succ {fuel : Nat} (ihTree : ∀ g, g + 1 = fuel → FreesTrees g)
    (ih : FreesForests fuel) : FreesForests (fuel + 1) := by
  intro h p first last ts hc hts hnd hfuel
  cases ts with
  | nil => exact ⟨h, last, rfl, hc, by simp, fun b _ => rfl, rfl⟩
  | cons t ts =>
    obtain ⟨x, fp⟩ := t
    have hx : Tree h x fp := hts (x, fp) mem_cons_self
    have hts' : Forest h ts := fun t ht => hts t (mem_cons_of_mem _ ht)
    have hlen : 1 ≤ fp.length := length_pos_of_mem hx.root_mem
    simp only [foot_cons, length_append] at hfuel
    obtain ⟨g, rfl⟩ : ∃ g, fuel = g + 1 := ⟨fuel - 1, by omega⟩
    simp only [foot_cons, nodup_cons, mem_append, not_or, nodup_append] at hnd
    obtain ⟨⟨hpfp, hpts⟩, hndfp, hndts, hdisj⟩ := hnd
    have hnext : h.getNext (.node x) = some (headRef .node (roots ts) .null) :=
      getNext_of_links hc.seg.1
    -- the child leaves the list ...
    obtain ⟨h1, hdet, hc1, hf1, hpar1, -⟩ :=
      (show Chain h p first last ([] ++ x :: roots ts) from hc).nodeDetach
    rw [nil_append] at hc1 hf1
    obtain ⟨last1, hc1⟩ : ∃ last1, Chain h1 p first last1 (roots ts) := ⟨_, hc1⟩
    have hxp : x ≠ p := hc.ne mem_cons_self
    have hroots : ∀ y ∈ roots ts, y ∈ foot ts := fun y hy => Forest.root_mem hts' hy
    have hx1 : Tree h1 x fp := by
      refine hx.congr (hf1.list x hxp) fun b hb => hf1.out b ?_
      have hbfp := mem_of_mem_tail hb
      simp only [mem_cons, not_or]
      refine ⟨?_, fun hbr => hdisj b hbfp b (hroots b hbr) rfl⟩
      rintro rfl
      exact hpfp hbfp
    have hts1 : Forest h1 ts := by
      refine hts'.congr hndts (fun y hy => hf1.list y ?_) fun b hb hbr => hf1.out b ?_
      · rintro rfl
        exact hpts (hroots y hy)
      · simp only [mem_cons, not_or]
        refine ⟨?_, hbr⟩
        rintro rfl
        exact hpts hb
    -- ... its tree is freed ...
    obtain ⟨h2, hbody, hfreed⟩ := ihTree g rfl h1 x fp hx1 hndfp (by omega)
    have hout : ∀ b, b ∈ foot ts → b ∉ fp := fun b hb hbfp => hdisj b hbfp b hb rfl
    have hc2 : Chain h2 p first last1 (roots ts) := by
      refine hc1.of_cells fun b hb => hfreed.kept b ?_
      rcases mem_cons.mp hb with rfl | hb
      · exact hpfp
      · exact hout b (hroots b hb)
    have hts2 := hts1.of_cells fun b hb => hfreed.kept b (hout b hb)
    -- ... and the loop goes on with the rest
    obtain ⟨h', last', hrun, hc', hgone, hkept, htop⟩ :=
      ih h2 p first last1 ts hc2 hts2 (nodup_cons.mpr ⟨hpts, hndts⟩) (by omega)
    obtain ⟨n, hn, hnp⟩ : ∃ n, h.cells x = some n ∧ n.parent = .node p := by
      simpa only [Heap.parent, map_eq_some_iff] using hc.parent x mem_cons_self
    refine ⟨h', last', ?_, hc', ?_, ?_, htop.trans (hfreed.top.trans hf1.top)⟩
    · simp only [roots_cons, headRef_cons, plistFreeChildren, hnext, bind_eq_bind,
        bind_some, plistFreeNode, hn, hnp, hdet, hbody]
      exact hrun
    · intro b hb
      rcases mem_append.mp hb with hb | hb
      · rw [hkept b ?_, hfreed.gone b hb]
        simp only [mem_cons, not_or]
        refine ⟨?_, fun hbts => hdisj b hb b hbts rfl⟩
        rintro rfl
        exact hpfp hb
      · exact hgone b hb
    · intro b hb
      simp only [foot_cons, mem_cons, mem_append, not_or] at hb
      rw [hkept b (by simp [hb.1, hb.2.2]), hfreed.kept b hb.2.1, hf1.out b]
      simp only [mem_cons, not_or]
      exact ⟨hb.1, fun hbr => hb.2.2 (hroots b hbr)⟩

theorem frees (fuel : Nat) : FreesTrees fuel ∧ FreesForests fuel := by
  induction fuel using Nat.strong_induction_on with
  | _ fuel ih =>
    cases fuel with
    | zero =>
      refine ⟨fun h a fp ht hnd hfuel => ?_, fun h p first last ts hc hts hnd hfuel => ?_⟩
      · have := length_pos_of_mem ht.root_mem
        omega
      · omega
    | succ fuel =>
      refine ⟨freesTrees_succ (ih fuel (by omega)).2, freesForests_succ ?_ (ih fuel (by omega)).2⟩
      rintro g rfl
      exact (ih g (by omega)).1

/-- **Freeing a child.**  It leaves its parent's list, and its tree is given back. -/
theorem plistFree_child {h : PHeap} {p a : Nat} {fp : List Nat} {first last : Ref}
    {l r : List Nat} (hc : Chain h p first last (l ++ a :: r)) (ht : Tree h a fp)
    (hnd : fp.Nodup) (hout : ∀ b ∈ p :: (l ++ r), b ∉ fp) :
    ∃ h1 h', nodeDetach h (.node p) a = some (h1, some l.length) ∧
      plistFree h a = some (h', some l.length) ∧ Freed h1 h' fp := by
  obtain ⟨h1, hdet, -, hf, -, -⟩ := hc.nodeDetach
  have ha : a ∈ l ++ a :: r := by simp
  obtain ⟨n, hn, hnp⟩ : ∃ n, h.cells a = some n ∧ n.parent = .node p := by
    simpa only [Heap.parent, map_eq_some_iff] using hc.parent a ha
  have ht1 : Tree h1 a fp := by
    refine ht.congr (hf.list a (hc.ne ha)) fun b hb => hf.out b fun hbout => ?_
    exact hout b hbout (mem_of_mem_tail hb)
  have hlen := ht1.length_le hnd
  rw [hf.top] at hlen
  obtain ⟨h', hbody, hfreed⟩ := (frees (3 * h.top + 2)).1 h1 a fp ht1 hnd (by omega)
  refine ⟨h1, h', hdet, ?_, hfreed⟩
  simp only [plistFree, plistFreeNode, hn, hnp, hdet, hbody, bind_eq_bind, bind_some]

/-- **Freeing a plist** that no other plist holds. -/
theorem plistFree_root {h : PHeap} {a : Nat} {fp : List Nat} (ht : Tree h a fp) (hnd : fp.Nodup)
    (hroot : h.parent a = some .null) : ∃ h', plistFree h a = some (h', none) ∧ Freed h h' fp := by
  obtain ⟨n, hn, hnp⟩ : ∃ n, h.cells a = some n ∧ n.parent = .null := by
    simpa only [Heap.parent, map_eq_some_iff] using hroot
  have hlen := ht.length_le hnd
  obtain ⟨h', hbody, hfreed⟩ := (frees (3 * h.top + 2)).1 h a fp ht hnd (by omega)
  refine ⟨h', ?_, hfreed⟩
  simp only [plistFree, plistFreeNode, hn, hnp, nodeDetach, hbody, bind_eq_bind, bind_some]

end IDeviceStack.Libplist
