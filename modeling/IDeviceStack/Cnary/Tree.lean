/-
# `Cnary.Tree` — a node and everything below it

A tree in memory is a node whose child list is in order and whose children are
trees again.  Its footprint is the list of the addresses it occupies, the root
first.  Trees side by side are given as pairs of a root and its footprint
(`Item`): the roots of `ts` are the children, and what they occupy together is
`foot ts`.

The root's own place in a list is not part of the tree, so attaching or
detaching it leaves the tree alone (`Tree.congr`, `Forest.congr`).
-/
import IDeviceStack.Cnary.Children

namespace IDeviceStack.Cnary

open Lib List

variable {α : Type}

/-- The root of a tree, and the addresses the tree occupies. -/
abbrev Item := Nat × List Nat

def roots (ts : List Item) : List Nat := ts.map Prod.fst

def foot (ts : List Item) : List Nat := ts.flatMap Prod.snd

@[simp] theorem roots_nil : roots [] = [] := rfl
@[simp] theorem roots_cons (t : Item) (ts : List Item) : roots (t :: ts) = t.1 :: roots ts := rfl
@[simp] theorem roots_append (ts us : List Item) : roots (ts ++ us) = roots ts ++ roots us :=
  map_append
@[simp] theorem foot_nil : foot [] = [] := rfl
@[simp] theorem foot_cons (t : Item) (ts : List Item) : foot (t :: ts) = t.2 ++ foot ts := rfl
@[simp] theorem foot_append (ts us : List Item) : foot (ts ++ us) = foot ts ++ foot us :=
  flatMap_append

/-- Node `a` is the root of a tree that occupies `fp`. -/
inductive Tree (h : Heap α) : Nat → List Nat → Prop
  | node {a : Nat} {first last : Ref} {ts : List Item} :
      Chain h a first last (roots ts) → (∀ t ∈ ts, Tree h t.1 t.2) → Tree h a (a :: foot ts)

/-- Each item is a tree. -/
def Forest (h : Heap α) (ts : List Item) : Prop := ∀ t ∈ ts, Tree h t.1 t.2

variable {h : Heap α} {a : Nat}

theorem Tree.leaf {first last : Ref} (hc : Chain h a first last []) : Tree h a [a] := by
  have hnone : ∀ t ∈ ([] : List Item), Tree h t.1 t.2 := by simp
  exact Tree.node hc hnone

variable {fp : List Nat}

theorem Tree.root_mem (ht : Tree h a fp) : a ∈ fp := by
  cases ht
  exact mem_cons_self

theorem Tree.isSome (ht : Tree h a fp) : (h.cells a).isSome := by
  cases ht with
  | node hc _ => exact hc.isSome

theorem Tree.isSome_mem (ht : Tree h a fp) : ∀ b ∈ fp, (h.cells b).isSome := by
  induction ht with
  | node hc _ ih =>
    intro b hb
    rcases mem_cons.mp hb with rfl | hb
    · exact hc.isSome
    · obtain ⟨t, ht, hbt⟩ := mem_flatMap.mp hb
      exact ih t ht b hbt

theorem Tree.length_le (ht : Tree h a fp) (hnd : fp.Nodup) : fp.length ≤ h.top :=
  length_le_of_nodup_lt hnd fun b hb => Heap.lt_top (ht.isSome_mem b hb)

variable {ts : List Item}

theorem mem_foot {t : Item} (ht : t ∈ ts) {b : Nat} (hb : b ∈ t.2) : b ∈ foot ts :=
  mem_flatMap.mpr ⟨t, ht, hb⟩

theorem Forest.root_mem (hf : Forest h ts) {x : Nat} (hx : x ∈ roots ts) : x ∈ foot ts := by
  obtain ⟨t, ht, rfl⟩ := mem_map.mp hx
  exact mem_foot ht (hf t ht).root_mem

variable {h' : Heap α}

theorem Tree.congr (ht : Tree h a fp) (hlist : h'.list a = h.list a)
    (hbelow : ∀ b ∈ fp.tail, h'.cells b = h.cells b) : Tree h' a fp := by
  induction ht with
  | node hc hts ih =>
    rename_i a first last ts
    have hroot : ∀ x ∈ roots ts, h'.cells x = h.cells x :=
      fun x hx => hbelow x (Forest.root_mem hts hx)
    refine .node (hc.congr hlist ?_ ?_) fun t ht => ih t ht ?_ ?_
    · intro x hx
      simp only [Heap.links, hroot x hx]
    · intro x hx
      simp only [Heap.parent, hroot x hx]
    · simp only [Heap.list, hroot t.1 (mem_map_of_mem ht)]
    · intro b hb
      exact hbelow b (mem_foot ht (mem_of_mem_tail hb))

theorem Tree.tail_nodup (ht : Tree h a fp) (hnd : fp.Nodup) : a ∉ fp.tail := by
  cases ht
  exact (nodup_cons.mp hnd).1

theorem Forest.eq_of_mem (hf : Forest h ts) (hnd : (foot ts).Nodup) {t : Item} (ht : t ∈ ts)
    {x : Nat} (hx : x ∈ roots ts) (hxt : x ∈ t.2) : x = t.1 := by
  induction ts with
  | nil => cases ht
  | cons u ts ih =>
    obtain ⟨-, hndts, hdisj⟩ := nodup_append.mp hnd
    have hu := (hf u mem_cons_self).root_mem
    have hts : Forest h ts := fun t ht => hf t (mem_cons_of_mem u ht)
    rcases mem_cons.mp ht with rfl | ht
    · rcases mem_cons.mp hx with rfl | hx
      · rfl
      · exact absurd rfl (hdisj x hxt x (Forest.root_mem hts hx))
    · rcases mem_cons.mp hx with rfl | hx
      · exact absurd rfl (hdisj u.1 hu u.1 (mem_foot ht hxt))
      · exact ih hts hndts ht hx

theorem Forest.congr (hf : Forest h ts) (hnd : (foot ts).Nodup)
    (hlist : ∀ x ∈ roots ts, h'.list x = h.list x)
    (hbelow : ∀ b ∈ foot ts, b ∉ roots ts → h'.cells b = h.cells b) : Forest h' ts := by
  intro t ht
  refine (hf t ht).congr (hlist t.1 (mem_map_of_mem ht)) fun b hb => ?_
  have hbt := mem_of_mem_tail hb
  refine hbelow b (mem_foot ht hbt) fun hroot => ?_
  have hndt : t.2.Nodup := (nodup_flatMap.mp hnd).1 t ht
  rw [hf.eq_of_mem hnd ht hroot hbt] at hb
  exact (hf t ht).tail_nodup hndt hb

theorem Chain.of_cells {p : Nat} {first last : Ref} {xs : List Nat} (hc : Chain h p first last xs)
    (heq : ∀ b ∈ p :: xs, h'.cells b = h.cells b) : Chain h' p first last xs := by
  refine hc.congr ?_ (fun x hx => ?_) (fun x hx => ?_)
  · simp only [Heap.list, heq p mem_cons_self]
  · simp only [Heap.links, heq x (mem_cons_of_mem p hx)]
  · simp only [Heap.parent, heq x (mem_cons_of_mem p hx)]

theorem Forest.of_cells (hf : Forest h ts) (heq : ∀ b ∈ foot ts, h'.cells b = h.cells b) :
    Forest h' ts := by
  intro t ht
  refine (hf t ht).congr ?_ fun b hb => heq b (mem_foot ht (mem_of_mem_tail hb))
  simp only [Heap.list, heq t.1 (mem_foot ht (hf t ht).root_mem)]

end IDeviceStack.Cnary
