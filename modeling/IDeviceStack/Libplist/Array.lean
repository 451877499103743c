/-
# `Libplist.Array` — an array is a sequence, as long as it is not emptied wrongly

A run of the array functions on one array is compared with the sequence of items
it stands for.  The comparison is exact (`array_refines_sequence`): the child
list is the sequence after every step if and only if no step takes away the only
item of an array in which it was put before another one.

The reason is `node_list_remove`.  The `prev` of the first child is the list
header if that child was appended to an empty list, and `NULL` if it was inserted
before another one (`fronted`).  When the last child goes, the first kind writes
the header back into `end`; the second leaves `end` pointing at the freed node.
-/
import IDeviceStack.Libplist.Container

namespace IDeviceStack.Libplist

open Lib Cnary List Option

/-- What can happen around an array.  `other` is the rest of the program. -/
inductive ArrayOp where
  | append (item : Item)
  | insert (item : Item) (n : Nat)
  | set (item : Item) (n : Nat)
  | remove (n : Nat)
  | other (h : PHeap)

/-- One operation on the array `p`. -/
def ArrayOp.exec (p : Nat) (h : PHeap) : ArrayOp → Option PHeap
  | .append item => plistArrayAppendItem h p item.1
  | .insert item n => plistArrayInsertItem h p item.1 n
  | .set item n => plistArraySetItem h p item.1 n
  | .remove n => plistArrayRemoveItem h p n
  | .other h' => some h'

def execAll (p : Nat) (h : PHeap) : List ArrayOp → Option PHeap
  | [] => some h
  | op :: ops => do
      let h ← op.exec p h
      execAll p h ops

/-! ## The sequence an array stands for -/

/-- The items, and whether the first one was put before another one. -/
structure ArrayState where
  items : List Item
  fronted : Bool

def ArrayState.new : ArrayState := ⟨[], false⟩

/-- Insert before index `n`, or at the end. -/
def insertAt (items : List Item) (n : Nat) (item : Item) : List Item :=
  items.take n ++ item :: items.drop n

/-- `fronted` after an item came in at index `n` of `items`. -/
def frontedAfter (items : List Item) (n : Nat) (fronted : Bool) : Bool :=
  if items = [] then false else if n = 0 then true else fronted

def ArrayState.step (s : ArrayState) : ArrayOp → ArrayState
  | .append item => ⟨s.items ++ [item], frontedAfter s.items s.items.length s.fronted⟩
  | .insert item n => ⟨insertAt s.items n item, frontedAfter s.items n s.fronted⟩
  | .set item n =>
    if n < s.items.length then
      ⟨s.items.set n item, frontedAfter (s.items.eraseIdx n) n s.fronted⟩
    else
      s
  | .remove n => ⟨s.items.eraseIdx n, s.fronted⟩
  | .other _ => s

def ArrayState.run (s : ArrayState) (ops : List ArrayOp) : ArrayState := ops.foldl step s

/-- The step does not take away the only item of an array in which it was put before another. -/
def ArrayState.Safe (s : ArrayState) : ArrayOp → Prop
  | .set _ n => ¬ (s.fronted ∧ s.items.length = 1 ∧ n = 0)
  | .remove n => ¬ (s.fronted ∧ s.items.length = 1 ∧ n = 0)
  | _ => True

/-- Every step of the run is safe. -/
def ArrayState.SafeRun : ArrayState → List ArrayOp → Prop
  | _, [] => True
  | s, op :: ops => s.Safe op ∧ (s.step op).SafeRun ops

/-- What a caller owes: items are trees of their own, and the rest of the program keeps away from
the array's memory. -/
def ArrayState.Legal (s : ArrayState) (p : Nat) (h : PHeap) : ArrayOp → Prop
  | .append item => Loose h p s.items item
  | .insert item _ => Loose h p s.items item
  | .set item _ => Loose h p s.items item
  | .remove _ => True
  | .other h' => ∀ b ∈ p :: foot s.items, h'.cells b = h.cells b

/-- Every step of the run is legal in the memory it meets. -/
def ArrayState.LegalRun (p : Nat) : ArrayState → PHeap → List ArrayOp → Prop
  | _, _, [] => True
  | s, h, op :: ops =>
    s.Legal p h op ∧ ∀ h', op.exec p h = some h' → (s.step op).LegalRun p h' ops

/-! ## One step -/

/-- What `prev` the first child has. -/
def ArrayState.first (s : ArrayState) (p : Nat) : Ref := if s.fronted then .null else .list p

/-- The array `p` stands for `s`. -/
structure ArrayRefines (h : PHeap) (p : Nat) (s : ArrayState) : Prop where
  holds : Holds h p (s.first p) s.items
  type : plistGetNodeType h p = some .array

variable {h : PHeap} {p : Nat}

theorem type_of_data_eq {h' : PHeap} (hd : h'.data p = h.data p) :
    plistGetNodeType h' p = plistGetNodeType h p := by
  have hget : plistGetData h' p = plistGetData h p := hd
  simp only [plistGetNodeType, hget]

theorem first_frontedAfter (items : List Item) (n p : Nat) (fronted : Bool) :
    ArrayState.first ⟨items, frontedAfter items n fronted⟩ p =
      if items = [] then .list p else if n = 0 then .null else if fronted then .null else .list p := by
  unfold ArrayState.first frontedAfter
  by_cases hnil : items = []
  · simp [hnil]
  · by_cases hn : n = 0 <;> simp [hnil, hn]

variable {s : ArrayState}

theorem ArrayRefines.getItem (hr : ArrayRefines h p s) (n : Nat) : plistArrayGetItem h p n =
      some (match s.items[n]? with | some t => .node t.1 | none => .null) := by
  simp only [plistArrayGetItem, hr.type, bind_eq_bind, bind_some, if_true,
    hr.holds.children.toChain.nodeNthChild, roots, List.getElem?_map]
  cases s.items[n]? <;> rfl

variable {n : Nat} {t : Item}

theorem split_at {items : List Item} (ht : items[n]? = some t) :
    items = items.take n ++ t :: items.drop (n + 1) := by
  obtain ⟨hn, rfl⟩ := List.getElem?_eq_some_iff.mp ht
  simp

theorem ArrayRefines.freeItem (hr : ArrayRefines h p s) (ht : s.items[n]? = some t)
    (hsafe : ¬ (s.fronted ∧ s.items.length = 1 ∧ n = 0)) :
    ∃ h', plistFree h t.1 = some (h', some n) ∧
      Holds h' p (s.first p) (s.items.eraseIdx n) ∧ plistGetNodeType h' p = some .array ∧
      ∀ b, b ∉ p :: foot s.items → h'.cells b = h.cells b := by
  have hsplit := split_at ht
  have hn : n < s.items.length := (List.getElem?_eq_some_iff.mp ht).1
  have hlen : (s.items.take n).length = n := by
    rw [length_take]
    omega
  have herase : s.items.eraseIdx n = s.items.take n ++ s.items.drop (n + 1) :=
    eraseIdx_eq_take_drop_succ ..
  have hh : Holds h p (s.first p) (s.items.take n ++ t :: s.items.drop (n + 1)) := by
    rw [← hsplit]
    exact hr.holds
  have hpt : p ∉ t.2 := by
    have hp := (nodup_cons.mp hr.holds.nodup).1
    exact fun hpt => hp (mem_foot (mem_of_getElem? ht) hpt)
  have hok : s.items.take n ++ s.items.drop (n + 1) = [] → s.first p = .list p := by
    intro hnil
    have hone : s.items.length = 1 := by
      rw [← herase] at hnil
      have := congrArg List.length hnil
      rw [length_eraseIdx_of_lt hn, length_nil] at this
      omega
    have hfr : s.fronted = false := by
      by_contra hfr
      exact hsafe ⟨by simpa using hfr, hone, by omega⟩
    simp [ArrayState.first, hfr]
  obtain ⟨h', hrun, hh', hout, hdata, -⟩ := hh.free hok
  rw [← herase] at hh'
  rw [← hsplit] at hout
  exact ⟨h', hlen ▸ hrun, hh', (type_of_data_eq (hdata p hpt)).trans hr.type, hout⟩

theorem foot_eraseIdx_subset (items : List Item) (n : Nat) : foot (items.eraseIdx n) ⊆ foot items := by
  intro b hb
  obtain ⟨t, ht, hbt⟩ := mem_flatMap.mp hb
  exact mem_foot (mem_of_mem_eraseIdx ht) hbt

theorem insertAt_eraseIdx {items : List Item} (hn : n < items.length) (item : Item) :
    insertAt (items.eraseIdx n) n item = items.set n item := by
  rw [insertAt, eraseIdx_eq_take_drop_succ, set_eq_take_append_cons_drop, if_pos hn]
  have hlen : (items.take n).length = n := by
    rw [length_take]
    omega
  rw [take_left' hlen, drop_left' hlen]

theorem ArrayRefines.step {op : ArrayOp} (hr : ArrayRefines h p s) (hlegal : s.Legal p h op)
    (hsafe : s.Safe op) : ∃ h', op.exec p h = some h' ∧ ArrayRefines h' p (s.step op) := by
  cases op with
  | append item =>
    obtain ⟨h', hrun, hh, hf⟩ := hr.holds.attach hlegal
    refine ⟨h', ?_, ?_, (type_of_data_eq (congrFun hf.data p)).trans hr.type⟩
    · simpa only [ArrayOp.exec, plistArrayAppendItem, hr.type, bind_eq_bind,
        bind_some, if_true] using hrun
    · have hfirst : (s.step (.append item)).first p = if s.items = [] then .list p else s.first p := by
        refine (first_frontedAfter s.items _ p s.fronted).trans ?_
        by_cases hnil : s.items = []
        · simp [hnil]
        · rw [if_neg hnil, if_neg (by simpa using hnil), if_neg hnil]
          rfl
      rw [hfirst]
      exact hh
  | insert item n =>
    obtain ⟨h', hrun, hh, hf⟩ := hr.holds.insert hlegal n
    refine ⟨h', ?_, ?_, (type_of_data_eq (congrFun hf.data p)).trans hr.type⟩
    · simpa only [ArrayOp.exec, plistArrayInsertItem, hr.type, bind_eq_bind,
        bind_some, if_true] using hrun
    · have hfirst := first_frontedAfter s.items n p s.fronted
      exact hfirst ▸ hh
  | set item n =>
    have hget := hr.getItem n
    cases ht : s.items[n]? with
    | none =>
      have hn : ¬ n < s.items.length := by
        have := List.getElem?_eq_none_iff.mp ht
        omega
      refine ⟨h, ?_, ?_⟩
      · simp only [ArrayOp.exec, plistArraySetItem, hr.type, hget, ht, bind_eq_bind,
          bind_some, if_true]
      · simpa only [ArrayState.step, if_neg hn] using hr
    | some t =>
      have hn : n < s.items.length := (List.getElem?_eq_some_iff.mp ht).1
      obtain ⟨h1, hfree, hh1, htype, hout⟩ := hr.freeItem ht hsafe
      have hloose : Loose h1 p (s.items.eraseIdx n) item :=
        Loose.of_out hlegal hout (foot_eraseIdx_subset _ _)
      obtain ⟨h', hins, hh', hf⟩ := hh1.insert hloose n
      refine ⟨h', ?_, ?_, ?_⟩
      · simp only [ArrayOp.exec, plistArraySetItem, hr.type, hget, ht, bind_eq_bind,
          bind_some, if_true, hfree, putBack]
        exact hins
      · have hfirst := first_frontedAfter (s.items.eraseIdx n) n p s.fronted
        simp only [ArrayState.step, if_pos hn]
        rw [← insertAt_eraseIdx hn item]
        exact hfirst ▸ hh'
      · exact (type_of_data_eq (congrFun hf.data p)).trans htype
  | remove n =>
    have hget := hr.getItem n
    cases ht : s.items[n]? with
    | none =>
      have hn := List.getElem?_eq_none_iff.mp ht
      refine ⟨h, ?_, ?_⟩
      · simp only [ArrayOp.exec, plistArrayRemoveItem, hr.type, hget, ht, bind_eq_bind,
          bind_some, if_true]
      · have hsame : s.step (.remove n) = s := by
          simp only [ArrayState.step, eraseIdx_of_length_le hn]
        rw [hsame]
        exact hr
    | some t =>
      obtain ⟨h', hfree, hh', htype, -⟩ := hr.freeItem ht hsafe
      refine ⟨h', ?_, hh', htype⟩
      simp only [ArrayOp.exec, plistArrayRemoveItem, hr.type, hget, ht, bind_eq_bind,
        bind_some, if_true, hfree]
  | other h' =>
    refine ⟨h', rfl, hr.holds.of_cells hlegal, ?_⟩
    have hd : Heap.data h' p = Heap.data h p := by
      simp only [Heap.data, hlegal p mem_cons_self]
    exact (type_of_data_eq hd).trans hr.type

/-! ## The step that goes wrong -/

theorem nodeInsert_dangling {h : PHeap} {p a b n : Nat}
    (hl : h.list p = some ⟨.null, .node b, 0⟩) (hb : h.cells b = none) :
    nodeInsert h p n a = none := by
  obtain ⟨np, hp, hnl⟩ := cell_of_list hl
  by_cases ha : (h.cells a).isSome
  · have hH : (h.putParent p a np.depth).list p = some ⟨.null, .node b, 0⟩ := by
      rw [Heap.list_putParent, hl]
    obtain ⟨m, hm, hml⟩ := cell_of_list hH
    have hgone : ¬ (((h.putParent p a np.depth).adjust a fun n =>
        { n with next := .null, prev := .node b }).cells b).isSome := by
      rw [Heap.isSome_adjust, Heap.isSome_putParent, hb]
      simp
    have ha' : ((h.putParent p a np.depth).cells a).isSome := by
      rw [Heap.isSome_putParent]
      exact ha
    have hadd : nodeListAdd (h.putParent p a np.depth) p a = none := by
      simp only [nodeListAdd, hm, hml, bind_eq_bind, bind_some, reduceCtorEq, if_false,
        Heap.setNext, Heap.modify, if_pos ha', if_neg hgone, bind_none]
    simp only [nodeInsert, adopt_eq hp ha, bind_eq_bind, bind_some, nodeListInsert, hm, hml]
    rw [if_pos (Nat.zero_le n), hadd, bind_none]
  · simp only [nodeInsert, adopt, hp, bind_eq_bind, bind_some, Heap.modify, if_neg ha, bind_none]

theorem ArrayRefines.freeOnly (hr : ArrayRefines h p s) (hitems : s.items = [t]) (hfr : s.fronted) :
    ∃ h', plistFree h t.1 = some (h', some 0) ∧ h'.list p = some ⟨.null, .node t.1, 0⟩ ∧
      h'.cells t.1 = none := by
  have hh := hr.holds
  rw [hitems, show s.first p = .null by simp [ArrayState.first, hfr]] at hh
  have ht : Tree h t.1 t.2 := hh.forest t (by simp)
  have hnd := hh.nodup
  simp only [foot_cons, foot_nil, append_nil, nodup_cons] at hnd
  have hout : ∀ b ∈ [p], b ∉ t.2 := by
    rintro b hb hbt
    rw [mem_singleton.mp hb] at hbt
    exact hnd.1 hbt
  have hc : Children h p .null [t.1] := hh.children
  obtain ⟨h1, hdet, hc1, -, -, -⟩ := nodeDetach_dangling hc
  obtain ⟨h1', h', hdet', hfree, hfreed⟩ :=
    plistFree_child (l := []) (r := []) hc.toChain ht hnd.2 hout
  obtain rfl : h1' = h1 := by
    rw [hdet] at hdet'
    exact (congrArg Prod.fst (some.inj hdet')).symm
  refine ⟨h', hfree, ?_, hfreed.gone t.1 ht.root_mem⟩
  rw [Heap.list, hfreed.kept p hnd.1]
  exact hc1.list

theorem ArrayRefines.step_unsafe {op : ArrayOp} (hr : ArrayRefines h p s) (hbad : ¬ s.Safe op)
    {h' : PHeap} (hrun : op.exec p h = some h') (first : Ref) :
    ¬ Children h' p first (roots (s.step op).items) := by
  have hcase : s.fronted ∧ s.items.length = 1 ∧ ((∃ item, op = .set item 0) ∨ op = .remove 0) := by
    cases op with
    | set item n =>
      simp only [ArrayState.Safe, not_not] at hbad
      exact ⟨hbad.1, hbad.2.1, .inl ⟨item, by rw [hbad.2.2]⟩⟩
    | remove n =>
      simp only [ArrayState.Safe, not_not] at hbad
      exact ⟨hbad.1, hbad.2.1, .inr (by rw [hbad.2.2])⟩
    | append item => exact absurd trivial hbad
    | insert item n => exact absurd trivial hbad
    | other h' => exact absurd trivial hbad
  obtain ⟨hfr, hone, hop⟩ := hcase
  obtain ⟨t, hitems⟩ := length_eq_one_iff.mp hone
  obtain ⟨h1, hfree, hlist, hgone⟩ := hr.freeOnly hitems hfr
  have hget := hr.getItem 0
  rw [hitems] at hget
  rcases hop with ⟨item, rfl⟩ | rfl
  · simp only [ArrayOp.exec, plistArraySetItem, hr.type, hget, bind_eq_bind,
      bind_some, if_true, List.getElem?_cons_zero, hfree, putBack,
      nodeInsert_dangling hlist hgone, reduceCtorEq] at hrun
  · simp only [ArrayOp.exec, plistArrayRemoveItem, hr.type, hget, bind_eq_bind,
      bind_some, if_true, List.getElem?_cons_zero, hfree, some.injEq] at hrun
    subst hrun
    intro hc
    have hend := hc.list.symm.trans hlist
    simp [ArrayState.step, hitems] at hend

/-! ## Whole runs -/

/-- After every part of the run the call has returned, and the child list is the sequence. -/
def ArrayState.Faithful (s : ArrayState) (p : Nat) (h : PHeap) (ops : List ArrayOp) : Prop :=
  ∀ pre, pre <+: ops → ∃ h' first, execAll p h pre = some h' ∧
    Children h' p first (roots (s.run pre).items)

theorem ArrayRefines.run (hr : ArrayRefines h p s) {ops : List ArrayOp}
    (hlegal : s.LegalRun p h ops) : s.Faithful p h ops ↔ s.SafeRun ops := by
  induction ops generalizing h s with
  | nil =>
    refine iff_of_true (fun pre hpre => ?_) trivial
    obtain rfl := prefix_nil.mp hpre
    exact ⟨h, s.first p, rfl, hr.holds.children⟩
  | cons op ops ih =>
    obtain ⟨hop, hrest⟩ := hlegal
    constructor
    · intro hall
      obtain ⟨h', first, hrun, hc⟩ := hall [op] (prefix_append [op] ops)
      have hexec : op.exec p h = some h' := by simpa [execAll] using hrun
      have hsafe : s.Safe op := by
        by_contra hbad
        exact hr.step_unsafe hbad hexec first hc
      obtain ⟨h1, hrun1, hr1⟩ := hr.step hop hsafe
      refine ⟨hsafe, (ih hr1 (hrest h1 hrun1)).mp fun pre hpre => ?_⟩
      obtain ⟨h2, first2, hrun2, hc2⟩ := hall (op :: pre) ((prefix_cons_inj op).mpr hpre)
      refine ⟨h2, first2, ?_, hc2⟩
      simpa only [execAll, hrun1, bind_eq_bind, bind_some] using hrun2
    · rintro ⟨hsafe, hsafes⟩ pre hpre
      cases pre with
      | nil => exact ⟨h, s.first p, rfl, hr.holds.children⟩
      | cons op' pre =>
        obtain ⟨heq, hpre'⟩ := cons_prefix_cons.mp hpre
        subst heq
        obtain ⟨h1, hrun1, hr1⟩ := hr.step hop hsafe
        obtain ⟨h2, first2, hrun2, hc2⟩ := (ih hr1 (hrest h1 hrun1)).mpr hsafes pre hpre'
        refine ⟨h2, first2, ?_, hc2⟩
        simpa only [execAll, hrun1, bind_eq_bind, bind_some] using hrun2

/-- **An array refines a sequence.**  In every run on a new array, the child list is the sequence
after each step exactly if no step takes away the only item of an array in which that item was put
before another one. -/
theorem array_refines_sequence (h₀ : PHeap) (ops : List ArrayOp)
    (hlegal : ArrayState.new.LegalRun (plistNewArray h₀).1 (plistNewArray h₀).2 ops) :
    ArrayState.new.Faithful (plistNewArray h₀).1 (plistNewArray h₀).2 ops ↔
      ArrayState.new.SafeRun ops := by
  obtain ⟨-, hh, -, hd, -, -⟩ := plistNewNode_holds h₀ ⟨.array, 0⟩
  exact ArrayRefines.run ⟨hh, plistGetNodeType_of_data hd⟩ hlegal

/-- Three booleans, at the addresses 0, 1 and 2. -/
def threeBooleans : PHeap :=
  let b : PlistData := ⟨.scalar (.boolean 1), 1⟩
  (plistNewNode (plistNewNode (plistNewNode Heap.empty b).2 b).2 b).2

theorem array_refines_sequence_append_remove :
    ArrayState.new.LegalRun 3 (plistNewArray threeBooleans).2 [.append (0, [0]), .remove 0] ∧
      ArrayState.new.Faithful 3 (plistNewArray threeBooleans).2 [.append (0, [0]), .remove 0] := by
  have hlegal : ArrayState.new.LegalRun 3 (plistNewArray threeBooleans).2
      [.append (0, [0]), .remove 0] :=
    ⟨Loose.leaf (.list 0) rfl (by decide), fun _ _ => ⟨trivial, fun _ _ => trivial⟩⟩
  refine ⟨hlegal, (array_refines_sequence threeBooleans _ hlegal).mpr ?_⟩
  simp [ArrayState.SafeRun, ArrayState.Safe, ArrayState.step, ArrayState.new, frontedAfter]

/-- Append A, insert B before it, remove both, append C: the last call writes to freed memory. -/
theorem array_emptied_by_front :
    ArrayState.new.LegalRun 3 (plistNewArray threeBooleans).2
        [.append (0, [0]), .insert (1, [1]) 0, .remove 1, .remove 0, .append (2, [2])] ∧
      ¬ ArrayState.new.Faithful 3 (plistNewArray threeBooleans).2
        [.append (0, [0]), .insert (1, [1]) 0, .remove 1, .remove 0, .append (2, [2])] := by
  constructor
  · refine ⟨Loose.leaf (.list 0) rfl (by decide), fun h₁ hrun₁ => ?_⟩
    refine ⟨Loose.leaf (.list 1) ?_ (by decide), fun h₂ hrun₂ => ⟨trivial, fun h₃ hrun₃ =>
      ⟨trivial, fun h₄ hrun₄ => ⟨Loose.leaf (.list 2) ?_ (by decide), fun _ _ => trivial⟩⟩⟩⟩
    · have heq : (execAll 3 (plistNewArray threeBooleans).2 [.append (0, [0])]).map
          (fun h => h.list 1) = some (some ⟨.null, .list 1, 0⟩) := rfl
      have hall : execAll 3 (plistNewArray threeBooleans).2 [.append (0, [0])] = some h₁ := by
        simp only [execAll, hrun₁, bind_eq_bind, bind_some]
      rw [hall] at heq
      exact some.inj heq
    · have heq : (execAll 3 (plistNewArray threeBooleans).2
          [.append (0, [0]), .insert (1, [1]) 0, .remove 1, .remove 0]).map
          (fun h => h.list 2) = some (some ⟨.null, .list 2, 0⟩) := rfl
      have hall : execAll 3 (plistNewArray threeBooleans).2
          [.append (0, [0]), .insert (1, [1]) 0, .remove 1, .remove 0] = some h₄ := by
        simp only [execAll, hrun₁, hrun₂, hrun₃, hrun₄, bind_eq_bind, bind_some]
      rw [hall] at heq
      exact some.inj heq
  · intro hall
    obtain ⟨h', first, hrun, -⟩ := hall _ (prefix_refl _)
    have hnone : execAll 3 (plistNewArray threeBooleans).2
        [.append (0, [0]), .insert (1, [1]) 0, .remove 1, .remove 0, .append (2, [2])] = none := rfl
    rw [hnone] at hrun
    cases hrun

end IDeviceStack.Libplist
