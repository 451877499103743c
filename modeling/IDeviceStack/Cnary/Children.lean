/-
# `Cnary.Children` — what the list operations do to a child list

`Chain h p first xs` says that the list of `p` holds exactly the nodes `xs`:
`begin`, the forward and backward links and the list's counter agree on it.  The
one thing it leaves open is `first`, the `prev` of the first child.  It is the
list header when that child was appended to an empty list, and `NULL` when it
was inserted before another one.  `Children` adds what the operations rely on
and do not always keep: `end` is the last child, and the parent's own counter is
right.

The operations are run once each (`nodeListAdd_eq`, `nodeListInsert_eq`,
`Chain.nodeListRemove`): their result is a composition of total writes `putNext`,
`putPrev`, ..., whose effect on the links is that of `linkNext` and `linkPrev`.

`node_list_remove` keeps `Chain` whatever it removes, but not `Children`: when
the only child goes and its `prev` is `NULL`, `end` is left pointing at it
(`nodeDetach_dangling`).
-/
import IDeviceStack.Cnary.View

namespace IDeviceStack.Cnary

open Lib List Option

variable {α : Type}

/-! ## The shape of a child list -/

/-- The list of `p` holds exactly `xs`; the first child points back to `first`, and `end` is
`last`. -/
structure Chain (h : Heap α) (p : Nat) (first last : Ref) (xs : List Nat) : Prop where
  list : h.list p = some ⟨headRef .node xs .null, last, xs.length⟩
  seg : Seg .node h.links first .null xs
  parent : ∀ a ∈ xs, h.parent a = some (.node p)
  nodup : (p :: xs).Nodup
  first_eq : first = .null ∨ first = .list p

/-- A child list with both counters right and with `end` where it should be: the last child, or
the list header itself if there is none. -/
structure Children (h : Heap α) (p : Nat) (first : Ref) (xs : List Nat) : Prop
    extends Chain h p first (lastRef .node xs (.list p)) xs where
  count : h.count p = some xs.length

/-- Going from `h` to `h'` changed the list of `p` and the places of `xs` in it, and nothing else:
no data, no other list, and no other cell. -/
structure Frame (h h' : Heap α) (p : Nat) (xs : List Nat) : Prop where
  out : ∀ b, b ∉ p :: xs → h'.cells b = h.cells b
  list : ∀ b, b ≠ p → h'.list b = h.list b
  data : h'.data = h.data
  top : h'.top = h.top

theorem node_injective : Function.Injective Ref.node := fun _ _ h => Ref.node.inj h

variable {h : Heap α} {a : Nat}

theorem isSome_of_list {l : NodeList} (hl : h.list a = some l) : (h.cells a).isSome := by
  cases hc : h.cells a with
  | none => simp [Heap.list, hc] at hl
  | some n => rfl

theorem isSome_of_parent {r : Ref} (hl : h.parent a = some r) : (h.cells a).isSome := by
  cases hc : h.cells a with
  | none => simp [Heap.parent, hc] at hl
  | some n => rfl

namespace Chain

variable {h : Heap α} {p : Nat} {first last : Ref} {xs : List Nat}

theorem isSome (hc : Chain h p first last xs) : (h.cells p).isSome := isSome_of_list hc.list

theorem isSome_mem (hc : Chain h p first last xs) {a : Nat} (ha : a ∈ xs) : (h.cells a).isSome :=
  isSome_of_parent (hc.parent a ha)

theorem ne (hc : Chain h p first last xs) {a : Nat} (ha : a ∈ xs) : a ≠ p := by
  rintro rfl
  exact (nodup_cons.mp hc.nodup).1 ha

theorem length_lt (hc : Chain h p first last xs) : xs.length < h.top + 1 := by
  have hle := length_le_of_nodup_lt (nodup_cons.mp hc.nodup).2 (n := h.top)
    fun x hx => Heap.lt_top (hc.isSome_mem hx)
  omega

end Chain

/-! ## Following the links -/

theorem getNext_of_links {h : Heap α} {a : Nat} {e b : Ref} (hl : h.links a = some (e, b)) :
    h.getNext (.node a) = some e := by
  simp only [Heap.links, map_eq_some_iff] at hl
  obtain ⟨n, hn, heq⟩ := hl
  simp only [Prod.mk.injEq] at heq
  simp [Heap.getNext, hn, heq.1]

variable {l r : List Nat} {b e : Ref}

theorem advance_seg {y : Nat} (prev : Ref) (hs : Seg .node h.links b e (l ++ y :: r)) :
    advance h l.length prev (headRef .node (l ++ y :: r) e) =
      some (lastRef .node l prev, .node y) := by
  induction l generalizing b prev with
  | nil => rfl
  | cons x l ih =>
    obtain ⟨hx, hs⟩ := hs
    rw [length_cons, advance, cons_append, headRef_cons, getNext_of_links hx]
    exact ih (.node x) hs

theorem findPos_seg {fuel i : Nat} (hs : Seg .node h.links b e (l ++ a :: r)) (ha : a ∉ l)
    (hf : l.length < fuel) :
    findPos h a fuel (headRef .node (l ++ a :: r) e) i = some (some (i + l.length)) := by
  induction l generalizing b fuel i with
  | nil =>
    obtain ⟨fuel, rfl⟩ : ∃ k, fuel = k + 1 := ⟨fuel - 1, by simp at hf; omega⟩
    simp [findPos]
  | cons x l ih =>
    obtain ⟨fuel, rfl⟩ : ∃ k, fuel = k + 1 := ⟨fuel - 1, by simp at hf; omega⟩
    obtain ⟨hx, hs⟩ := hs
    have hne : x ≠ a := fun h => ha (h ▸ mem_cons_self)
    rw [cons_append, headRef_cons, findPos, if_neg (by simp), if_neg (by simpa using hne),
      getNext_of_links hx]
    rw [length_cons] at hf
    have hnext := ih (i := i + 1) hs (fun h => ha (mem_cons_of_mem x h))
      (show l.length < fuel by omega)
    rw [length_cons, show i + (l.length + 1) = i + 1 + l.length by omega]
    exact hnext

variable {xs : List Nat}

theorem nthFrom_seg {fuel n : Nat} (hs : Seg .node h.links b .null xs) (hf : xs.length < fuel) :
    nthFrom h fuel (headRef .node xs .null) n =
      some (match xs[n]? with | some a => .node a | none => .null) := by
  induction xs generalizing b fuel n with
  | nil =>
    obtain ⟨fuel, rfl⟩ : ∃ k, fuel = k + 1 := ⟨fuel - 1, by simp at hf; omega⟩
    simp [nthFrom]
  | cons x xs ih =>
    obtain ⟨fuel, rfl⟩ : ∃ k, fuel = k + 1 := ⟨fuel - 1, by simp at hf; omega⟩
    obtain ⟨hx, hs⟩ := hs
    cases n with
    | zero => simp [nthFrom]
    | succ n =>
      rw [headRef_cons, nthFrom, if_neg (by simp), if_neg (by omega), getNext_of_links hx]
      rw [length_cons] at hf
      exact ih hs (by omega)

variable {p : Nat} {first last : Ref}

theorem Chain.nodeNthChild (hc : Chain h p first last xs) (n : Nat) :
    nodeNthChild h p n = some (match xs[n]? with | some a => .node a | none => .null) := by
  have hlist := hc.list
  simp only [Heap.list, map_eq_some_iff] at hlist
  obtain ⟨np, hp, hlist⟩ := hlist
  unfold Cnary.nodeNthChild
  simp only [hp, hlist, bind_eq_bind, bind_some]
  exact nthFrom_seg hc.seg hc.length_lt

/-! ## Adding a node -/

theorem Seg.unique {m : Nat → Option (Ref × Ref)} {b' : Ref} {ys : List Nat}
    (hx : Seg .node m b .null xs) (hy : Seg .node m b' .null ys)
    (hhead : headRef Ref.node xs .null = headRef Ref.node ys .null) : xs = ys := by
  induction xs generalizing b b' ys with
  | nil =>
    cases ys with
    | nil => rfl
    | cons y ys => cases hhead
  | cons x xs ih =>
    cases ys with
    | nil => cases hhead
    | cons y ys =>
      obtain rfl : x = y := Ref.node.inj hhead
      have hnext := congrArg (Option.map Prod.fst) (hx.1.symm.trans hy.1)
      rw [ih hx.2 hy.2 (some.inj hnext)]

theorem Chain.unique {first' last' : Ref} {ys : List Nat} (hx : Chain h p first last xs)
    (hy : Chain h p first' last' ys) : xs = ys :=
  Seg.unique hx.seg hy.seg
    (congrArg NodeList.beginRef (some.inj (hx.list.symm.trans hy.list)))

variable {h' : Heap α}

theorem Heap.valid_congr (heq : ∀ b, (h'.cells b).isSome = (h.cells b).isSome) {r : Ref}
    (hr : h.Valid r) : h'.Valid r := by
  cases r with
  | null => cases hr
  | node a => exact (heq a).trans hr
  | list p => exact (heq p).trans hr

theorem cell_of_list {l : NodeList} (hl : h.list p = some l) :
    ∃ n, h.cells p = some n ∧ n.children = l := by
  simpa only [Heap.list, map_eq_some_iff] using hl

theorem adopt_eq {np : Node α} (hp : h.cells p = some np) (ha : (h.cells a).isSome) :
    adopt h p a = some (h.putParent p a np.depth) := by
  have hp' : (h.cells p).isSome := by simp [hp]
  simp only [adopt, hp, bind_eq_bind, bind_some, Heap.modify_eq ha]
  exact Heap.modify_eq (by rw [Heap.isSome_adjust]; exact hp') _

theorem nodeListAdd_eq {l : NodeList} (hl : h.list p = some l) (hlast : h.Valid l.endRef)
    (ha : (h.cells a).isSome) :
    nodeListAdd h p a = some ((((h.putLinks a .null l.endRef).putNext l.endRef (.node a)).putPrev
      (.list p) (.node a)).putListCount p (· + 1)) := by
  obtain ⟨np, hp, rfl⟩ := cell_of_list hl
  have hp' : (h.cells p).isSome := by simp [hp]
  have hne : np.children.endRef ≠ .null := by
    intro hnull
    rw [hnull] at hlast
    cases hlast
  have hlast' : (h.putLinks a .null np.children.endRef).Valid np.children.endRef :=
    Heap.valid_congr (fun b => Heap.isSome_putLinks ..) hlast
  have hwrite := Heap.modify_eq ha fun n => { n with next := .null, prev := np.children.endRef }
  simp only [nodeListAdd, hp, bind_eq_bind, bind_some, hwrite, if_neg hne]
  rw [← Heap.putLinks, Heap.setNext_eq hlast', bind_some]
  have hend : setEnd ((h.putLinks a .null np.children.endRef).putNext np.children.endRef (.node a)) p
      (.node a) = some _ := Heap.modify_eq (by simpa using hp') _
  rw [hend, bind_some]
  exact Heap.modify_eq (by simpa using hp') _

theorem lastRef_eq_of_ne_nil (hl : l ≠ []) (b b' : Ref) :
    lastRef .node l b = lastRef .node l b' := by
  cases l with
  | nil => exact absurd rfl hl
  | cons x l => rfl

theorem lastRef_mem (hl : l ≠ []) (b : Ref) : ∃ x ∈ l, lastRef .node l b = .node x := by
  obtain ⟨ys, y, rfl⟩ := (eq_nil_or_concat l).resolve_left hl
  exact ⟨y, by simp, by simp⟩

theorem getNext_lastRef (hl : l ≠ []) (hs : Seg .node h.links b e (l ++ r)) (b' : Ref) :
    h.getNext (lastRef .node l b') = some (headRef .node r e) := by
  obtain ⟨ys, y, rfl⟩ := (eq_nil_or_concat l).resolve_left hl
  rw [concat_eq_append, append_assoc] at hs
  have hy := (seg_append.mp hs).2.1
  rw [concat_eq_append, lastRef_append, lastRef_cons, lastRef_nil, getNext_of_links hy]
  rfl

theorem nodeListInsert_eq {y : Nat} (hc : Chain h p first last (l ++ y :: r))
    (ha : (h.cells a).isSome) (hout : a ∉ p :: (l ++ y :: r)) :
    nodeListInsert h p l.length a =
      some ((((h.putLinks a (.node y) (lastRef .node l .null)).putNext (lastRef .node l (.list p))
        (.node a)).putPrev (.node y) (.node a)).putListCount p (· + 1)) := by
  obtain ⟨np, hp, hlist⟩ := cell_of_list hc.list
  have hp' := hc.isSome
  have hy : (h.cells y).isSome := hc.isSome_mem (by simp)
  obtain ⟨na, hna⟩ := isSome_iff_exists.mp ha
  have hcount : ¬ l.length ≥ np.children.count := by
    rw [hlist]
    simp
  simp only [nodeListInsert, hp, bind_eq_bind, bind_some, if_neg hcount]
  have hbegin : np.children.beginRef = headRef .node (l ++ y :: r) .null := by rw [hlist]
  rw [hbegin, advance_seg .null hc.seg, bind_some]
  by_cases hl : l = []
  · -- the new node becomes the first one
    subst hl
    have hap : a ≠ p := fun hap => hout (hap ▸ mem_cons_self)
    simp only [lastRef_nil, ne_eq, not_true_eq_false, if_false,
      Heap.modify_eq ha, bind_some, nil_append, headRef_cons]
    rw [setBegin, Heap.modify_eq (by simpa using hp'), bind_some]
    simp only [Heap.cells_adjust, if_neg hap, if_true, hna, map_some, bind_some,
      reduceCtorEq, if_false]
    rw [Heap.setPrev_eq (by simpa [Heap.Valid] using hy), bind_some]
    exact Heap.modify_eq (by simpa using hp') _
  · obtain ⟨x, hx, hxl⟩ := lastRef_mem hl .null
    have hxl' : lastRef Ref.node l (.list p) = .node x := (lastRef_eq_of_ne_nil hl _ _).trans hxl
    have hxs : (h.cells x).isSome := hc.isSome_mem (mem_append_left _ hx)
    have hax : a ≠ x := fun hax => hout (by simp [hax, hx])
    have hnext : h.getNext (.node x) = some (.node y) := by
      rw [← hxl]
      exact getNext_lastRef hl hc.seg .null
    simp only [hxl, hxl', ne_eq, reduceCtorEq, not_false_eq_true, if_true, hnext,
      bind_some, Heap.modify_eq ha]
    rw [Heap.setNext_eq (by simpa [Heap.Valid] using hxs), bind_some]
    simp only [Heap.putNext, Heap.cells_adjust, if_neg hax, if_true, hna, map_some,
      bind_some, reduceCtorEq, if_false]
    rw [Heap.setPrev_eq (by simpa [Heap.Valid] using hy), bind_some]
    exact Heap.modify_eq (by simpa using hp') _

/-- The heap after `a` was put between `l` and `r`: `prev` is what `a` finds before itself. -/
def splice (h : Heap α) (p depth : Nat) (prev : Ref) (l r : List Nat) (a : Nat) : Heap α :=
  (((((h.putParent p a depth).putLinks a (headRef Ref.node r .null) prev).putNext
    (lastRef Ref.node l (.list p)) (.node a)).putPrev (headRef Ref.node r (.list p)) (.node a)).putListCount
      p (· + 1)).putCount p (· + 1)

theorem headRef_ne (ha : a ∉ r) (he : e ≠ .node a) : headRef Ref.node r e ≠ .node a := by
  cases r with
  | nil => exact he
  | cons x r => exact fun hx => ha (Ref.node.inj hx ▸ mem_cons_self)

theorem lastRef_ne (ha : a ∉ l) (hb : b ≠ .node a) : lastRef Ref.node l b ≠ .node a := by
  by_cases hl : l = []
  · subst hl
    exact hb
  · obtain ⟨x, hx, heq⟩ := lastRef_mem hl b
    rw [heq]
    exact fun hxa => ha (Ref.node.inj hxa ▸ hx)

theorem headRef_eq_list {b : Nat} : headRef Ref.node r (.list p) = .list b ↔ r = [] ∧ p = b := by
  cases r <;> simp

theorem lastRef_eq_list {b : Nat} : lastRef Ref.node l (.list p) = .list b ↔ l = [] ∧ p = b := by
  by_cases hl : l = []
  · subst hl
    simp
  · obtain ⟨x, -, heq⟩ := lastRef_mem hl (.list p)
    simp [heq, hl]

section Splice

variable {h : Heap α} {p a depth : Nat} {first prev : Ref} {l r : List Nat}

theorem seg_splice (hc : Children h p first (l ++ r)) (ha : (h.cells a).isSome)
    (hout : a ∉ p :: (l ++ r)) :
    Seg .node (splice h p depth (lastRef Ref.node l prev) l r a).links
      (if l = [] then prev else first) .null (l ++ a :: r) := by
  simp only [mem_cons, mem_append, not_or] at hout
  obtain ⟨-, hal, har⟩ := hout
  have hnd := nodup_append.mp (nodup_cons.mp hc.nodup).2
  obtain ⟨hl, hr⟩ := seg_append.mp hc.seg
  simp only [splice, Heap.links_putCount, Heap.links_putListCount, Heap.links_putPrev,
    Heap.links_putNext]
  -- the cells of `l` and `r` do not see the links of `a`
  have hput : ∀ x, x ≠ a → ((h.putParent p a depth).putLinks a (headRef Ref.node r .null)
      (lastRef Ref.node l prev)).links x = h.links x := by
    intro x hx
    rw [Heap.links_putLinks, if_neg hx, Heap.links_putParent]
  have hl' := (hl.congr fun x hx => hput x (by rintro rfl; exact hal hx)).linkNext_last
    node_injective hnd.1 (.node a)
  have hr' := (hr.congr fun x hx => hput x (by rintro rfl; exact har hx)).linkNext_out
    (r := lastRef Ref.node l (.list p))
    (fun x hx heq => lastRef_ne (fun hxl => hnd.2.2 x hxl x hx rfl) (by simp) heq.symm) (.node a)
  refine seg_append.mpr ⟨?_, ?_, ?_⟩
  · by_cases hnil : l = []
    · subst hnil
      trivial
    · rw [if_neg hnil, headRef_cons, lastRef_eq_of_ne_nil hnil (.list p) first]
      refine hl'.linkPrev_out (fun x hx heq => ?_) _
      exact headRef_ne (fun hxr => hnd.2.2 x hx x hxr rfl) (by simp) heq.symm
  · have hla : lastRef Ref.node l (if l = [] then prev else first) = lastRef Ref.node l prev := by
      split
      · rfl
      · next hnil => exact lastRef_eq_of_ne_nil hnil _ _
    obtain ⟨na, hna⟩ := isSome_iff_exists.mp ha
    rw [hla, linkPrev, if_neg (headRef_ne har (by simp)).symm, linkNext,
      if_neg (lastRef_ne hal (by simp)).symm, Heap.links_putLinks, if_pos rfl, Heap.links_putParent]
    simp [Heap.links, hna]
  · cases r with
    | nil => trivial
    | cons y r => exact hr'.linkPrev_head node_injective hnd.2.1 (.node a)

theorem quiet_splice :
    Heap.Quiet (h.putParent p a depth)
      (((((h.putParent p a depth).putLinks a (headRef Ref.node r .null) prev).putNext
        (lastRef Ref.node l (.list p)) (.node a)).putPrev (headRef Ref.node r (.list p))
          (.node a)).putListCount p (· + 1)) :=
  (Heap.quiet_putLinks ..).trans <| (Heap.quiet_putNext ..).trans <|
    (Heap.quiet_putPrev ..).trans (Heap.quiet_putListCount ..)

theorem list_splice (hc : Children h p first (l ++ r)) :
    (splice h p depth prev l r a).list p =
      some ⟨headRef Ref.node (l ++ a :: r) .null, lastRef Ref.node (l ++ a :: r) (.list p),
        (l ++ a :: r).length⟩ := by
  simp only [splice, Heap.list_putCount, Heap.list_putListCount, Heap.list_putPrev,
    Heap.list_putNext, Heap.list_putLinks, Heap.list_putParent, hc.list, if_true]
  simp only [headRef_eq_list, lastRef_eq_list, and_true]
  rcases l with _ | ⟨x, l⟩ <;> rcases r with _ | ⟨y, r⟩ <;>
    simp [Nat.add_comm, Nat.add_left_comm]

theorem Children.splice (hc : Children h p first (l ++ r)) (ha : (h.cells a).isSome)
    (hout : a ∉ p :: (l ++ r)) (hprev : prev = .null ∨ prev = .list p) :
    Children (splice h p depth (lastRef Ref.node l prev) l r a) p (if l = [] then prev else first)
      (l ++ a :: r) where
  list := list_splice hc
  seg := seg_splice hc ha hout
  parent := by
    intro x hx
    rw [Cnary.splice, Heap.parent_putCount, quiet_splice.parent, Heap.parent_putParent]
    by_cases hxa : x = a
    · subst hxa
      obtain ⟨nx, hnx⟩ := isSome_iff_exists.mp ha
      simp [Heap.parent, hnx]
    · rw [if_neg hxa]
      refine hc.parent x ?_
      simp only [mem_append, mem_cons, hxa, false_or] at hx ⊢
      exact hx
  nodup := by
    have hperm : (p :: (l ++ a :: r)).Perm (a :: p :: (l ++ r)) :=
      (perm_middle.cons p).trans (List.Perm.swap ..)
    exact hperm.nodup_iff.mpr (nodup_cons.mpr ⟨hout, hc.nodup⟩)
  first_eq := by
    split
    · exact hprev
    · exact hc.first_eq
  count := by
    rw [Cnary.splice, Heap.count_putCount, quiet_splice.count, Heap.count_putParent, hc.count]
    simp [Nat.add_assoc]

theorem frame_splice : Frame h (splice h p depth prev l r a) p (a :: (l ++ r)) where
  out := by
    intro b hb
    simp only [mem_cons, mem_append, not_or] at hb
    obtain ⟨hbp, hba, hbl, hbr⟩ := hb
    have hln : lastRef Ref.node l (.list p) ≠ .node b := lastRef_ne hbl (by simp)
    have hhn : headRef Ref.node r (.list p) ≠ .node b := headRef_ne hbr (by simp)
    have hll : lastRef Ref.node l (.list p) ≠ .list b := fun h =>
      hbp (lastRef_eq_list.mp h).2.symm
    have hhl : headRef Ref.node r (.list p) ≠ .list b := fun h =>
      hbp (headRef_eq_list.mp h).2.symm
    rw [splice, Heap.putCount, Heap.cells_adjust, if_neg hbp, Heap.putListCount, Heap.cells_adjust,
      if_neg hbp, Heap.cells_putPrev hhn hhl, Heap.cells_putNext hln hll, Heap.putLinks,
      Heap.cells_adjust, if_neg hba, Heap.putParent, Heap.cells_adjust, if_neg hbp,
      Heap.cells_adjust, if_neg hba]
  list := by
    intro b hbp
    simp only [splice, Heap.list_putCount, Heap.list_putListCount, if_neg hbp, Heap.list_putPrev,
      headRef_eq_list, Heap.list_putNext, lastRef_eq_list, Ne.symm hbp, and_false, if_false,
      Heap.list_putLinks, Heap.list_putParent]
  data := by
    rw [splice, Heap.data_putCount, quiet_splice.data, Heap.data_putParent]
  top := quiet_splice.top

end Splice

theorem Children.valid_last (hc : Children h p first xs) :
    h.Valid (lastRef .node xs (.list p)) := by
  by_cases hnil : xs = []
  · subst hnil
    exact hc.isSome
  · obtain ⟨x, hx, heq⟩ := lastRef_mem hnil (.list p)
    rw [heq]
    exact hc.isSome_mem hx

theorem Chain.congr (hc : Chain h p first last xs) (hlist : h'.list p = h.list p)
    (hlinks : ∀ x ∈ xs, h'.links x = h.links x) (hpar : ∀ x ∈ xs, h'.parent x = h.parent x) :
    Chain h' p first last xs :=
  ⟨hlist.trans hc.list, hc.seg.congr hlinks, fun x hx => (hpar x hx).trans (hc.parent x hx),
    hc.nodup, hc.first_eq⟩

theorem Children.of_views (hc : Children h p first xs) (hlist : h'.list p = h.list p)
    (hcount : h'.count p = h.count p) (hlinks : ∀ x ∈ xs, h'.links x = h.links x)
    (hparent : ∀ x ∈ xs, h'.parent x = h.parent x) : Children h' p first xs :=
  ⟨hc.toChain.congr hlist hlinks hparent, hcount.trans hc.count⟩

theorem Children.lt_top (hc : Children h p first xs) {x : Nat} (hx : x ∈ p :: xs) : x < h.top := by
  rcases mem_cons.mp hx with rfl | hx
  · exact Heap.lt_top hc.isSome
  · exact Heap.lt_top (hc.isSome_mem hx)

theorem Children.childless (hlist : h.list p = some (listInit p)) (hcount : h.count p = some 0) :
    Children h p (.list p) [] :=
  ⟨⟨hlist, trivial, by simp, by simp, .inr rfl⟩, hcount⟩

theorem Children.nodeAttach_eq (hc : Children h p first xs) (ha : (h.cells a).isSome) :
    ∃ depth, Cnary.nodeAttach h p a =
      some (Cnary.splice h p depth (lastRef .node xs (.list p)) xs [] a) := by
  obtain ⟨np, hp, -⟩ := cell_of_list hc.list
  have hlast : (h.putParent p a np.depth).Valid (lastRef .node xs (.list p)) :=
    Heap.valid_congr (fun b => Heap.isSome_putParent ..) hc.valid_last
  refine ⟨np.depth, ?_⟩
  rw [Cnary.nodeAttach, adopt_eq hp ha, bind_eq_bind, bind_some,
    nodeListAdd_eq (by rw [Heap.list_putParent]; exact hc.list) hlast (by simpa using ha)]
  exact Heap.modify_eq (by simpa using hc.isSome) _

theorem Children.nodeAttach (hc : Children h p first xs) (ha : (h.cells a).isSome)
    (hout : a ∉ p :: xs) :
    ∃ h', nodeAttach h p a = some h' ∧
      Children h' p (if xs = [] then .list p else first) (xs ++ [a]) ∧ Frame h h' p (a :: xs) := by
  have hc' : Children h p first (xs ++ []) := by rwa [append_nil]
  obtain ⟨depth, heq⟩ := hc.nodeAttach_eq ha
  refine ⟨_, heq, hc'.splice ha (by simpa using hout) (.inr rfl), ?_⟩
  simpa using frame_splice (r := []) (l := xs)

theorem Children.nodeAttach_views (hc : Children h p first xs) (ha : (h.cells a).isSome)
    (hrun : Cnary.nodeAttach h p a = some h') :
    (∀ b, b ∉ a :: xs → h'.links b = h.links b) ∧ (∀ b, b ≠ a → h'.parent b = h.parent b) ∧
      ∀ b, b ≠ p → h'.count b = h.count b := by
  obtain ⟨depth, heq⟩ := hc.nodeAttach_eq ha
  rw [heq] at hrun
  cases hrun
  have hquiet := (quiet_splice : Heap.Quiet (h.putParent p a depth)
      (((((h.putParent p a depth).putLinks a (headRef Ref.node [] .null)
        (lastRef .node xs (.list p))).putNext (lastRef Ref.node xs (.list p)) (.node a)).putPrev
          (headRef Ref.node [] (.list p)) (.node a)).putListCount p (· + 1)))
  refine ⟨fun b hb => ?_, fun b hb => ?_, fun b hb => ?_⟩
  · have hba : b ≠ a := ne_of_not_mem_cons hb
    have hbx : b ∉ xs := not_mem_of_not_mem_cons hb
    have hlast : lastRef Ref.node xs (.list p) ≠ .node b := lastRef_ne hbx (by simp)
    simp only [Cnary.splice, Heap.links_putCount, Heap.links_putListCount, Heap.links_putPrev,
      Heap.links_putNext, linkPrev, linkNext, if_neg hlast.symm, Heap.links_putLinks, if_neg hba,
      Heap.links_putParent, headRef_nil, reduceCtorEq, if_false]
  · rw [Cnary.splice, Heap.parent_putCount, hquiet.parent, Heap.parent_putParent, if_neg hb]
  · rw [Cnary.splice, Heap.count, Heap.putCount, Heap.cells_adjust, if_neg hb]
    exact (congrFun hquiet.count b).trans (congrFun (Heap.count_putParent h p a depth) b)

theorem Children.nodeInsert (hc : Children h p first xs) (ha : (h.cells a).isSome)
    (hout : a ∉ p :: xs) (i : Nat) :
    ∃ h', nodeInsert h p i a = some h' ∧
      Children h' p (if xs = [] then .list p else if i = 0 then .null else first)
        (xs.take i ++ a :: xs.drop i) ∧ Frame h h' p (a :: xs) := by
  obtain ⟨np, hp, -⟩ := cell_of_list hc.list
  rcases Nat.lt_or_ge i xs.length with hi | hi
  · obtain ⟨y, r, hdrop⟩ : ∃ y r, xs.drop i = y :: r := by
      cases hd : xs.drop i with
      | nil =>
        rw [drop_eq_nil_iff] at hd
        omega
      | cons y r => exact ⟨y, r, rfl⟩
    have hxs : xs = xs.take i ++ y :: r := by rw [← hdrop, take_append_drop]
    have hlen : (xs.take i).length = i := by
      rw [length_take]
      omega
    have hadopt : Chain (h.putParent p a np.depth) p first (lastRef .node xs (.list p)) xs := by
      refine hc.toChain.congr (by simp) (by simp) fun x hx => ?_
      have hxa : x ≠ a := by
        rintro rfl
        exact hout (mem_cons_of_mem p hx)
      rw [Heap.parent_putParent, if_neg hxa]
    have hrun : Cnary.nodeInsert h p i a =
        some (Cnary.splice h p np.depth (lastRef .node (xs.take i) .null) (xs.take i) (y :: r) a) := by
      have hins := nodeListInsert_eq (hxs ▸ hadopt) (a := a) (by simpa using ha) (hxs ▸ hout)
      rw [hlen] at hins
      rw [Cnary.nodeInsert, adopt_eq hp ha, bind_eq_bind, bind_some, hins]
      exact Heap.modify_eq (by simpa using hc.isSome) _
    have hfirst : (if xs = [] then Ref.list p else if i = 0 then .null else first) =
        if xs.take i = [] then .null else first := by
      have hne : xs ≠ [] := length_pos_iff.mp (by omega)
      simp only [take_eq_nil_iff, hne, or_false, if_false]
    rw [hfirst, hdrop]
    refine ⟨_, hrun, (hxs ▸ hc : Children h p first (xs.take i ++ y :: r)).splice ha (hxs ▸ hout)
      (.inl rfl), ?_⟩
    rw [show a :: xs = a :: (xs.take i ++ y :: r) from congrArg _ hxs]
    exact frame_splice
  · obtain ⟨h', hrun, hc', hf⟩ := hc.nodeAttach ha hout
    have heq : Cnary.nodeInsert h p i a = Cnary.nodeAttach h p a := by
      obtain ⟨m, hm, hmlist⟩ := cell_of_list
        (h := h.putParent p a np.depth) (by rw [Heap.list_putParent]; exact hc.list)
      simp only [Cnary.nodeInsert, Cnary.nodeAttach, adopt_eq hp ha, bind_eq_bind,
        bind_some, nodeListInsert, hm]
      rw [if_pos (by rw [hmlist]; exact hi)]
    refine ⟨h', heq.trans hrun, ?_, hf⟩
    rw [take_of_length_le hi, drop_of_length_le hi]
    have hfirst : (if xs = [] then Ref.list p else if i = 0 then .null else first) =
        if xs = [] then .list p else first := by
      split
      · rfl
      · next hne =>
          have := length_pos_iff.mpr hne
          rw [if_neg (by omega)]
    rw [hfirst]
    exact hc'

/-! ## Removing a node -/

/-- The heap after the links around a node were closed; `prev` and `next` are what it had. -/
def unlink (h : Heap α) (p : Nat) (prev next : Ref) : Heap α :=
  if prev = .null then
    ((h.putPrev next .null).putNext (.list p) next).putListCount p (· - 1)
  else
    ((h.putNext prev next).putPrev (if next = .null then .list p else next) prev).putListCount p (· - 1)

theorem Chain.nodeListRemove (hc : Chain h p first last (l ++ a :: r)) :
    nodeListRemove h p a =
      some (unlink h p (lastRef .node l first) (headRef .node r .null), some l.length) := by
  obtain ⟨np, hp, hlist⟩ := cell_of_list hc.list
  have hp' := hc.isSome
  have hcount : np.children.count ≠ 0 := by
    rw [hlist]
    simp
  have hal : a ∉ l := by
    intro ha
    exact (nodup_append.mp (nodup_cons.mp hc.nodup).2).2.2 a ha a mem_cons_self rfl
  have hlen := hc.length_lt
  rw [length_append, length_cons] at hlen
  have hfind := findPos_seg (i := 0) hc.seg hal (show l.length < h.top + 1 by omega)
  rw [Nat.zero_add] at hfind
  have hbegin : np.children.beginRef = headRef .node (l ++ a :: r) .null := by rw [hlist]
  have hlinks := (seg_append.mp hc.seg).2.1
  simp only [Heap.links, map_eq_some_iff, Prod.mk.injEq] at hlinks
  obtain ⟨na, hna, hnext, hprev⟩ := hlinks
  simp only [Cnary.nodeListRemove, hp, bind_eq_bind, bind_some, if_neg hcount, hbegin,
    hfind, hna, hnext, hprev]
  have hvnext : ∀ y r', r = y :: r' → h.Valid (.node y) := by
    rintro y r' rfl
    exact hc.isSome_mem (by simp)
  have hvprev : lastRef .node l first ≠ .null → h.Valid (lastRef .node l first) := by
    intro hne
    by_cases hl : l = []
    · subst hl
      rcases hc.first_eq with rfl | rfl
      · exact absurd rfl hne
      · exact hp'
    · obtain ⟨x, hx, heq⟩ := lastRef_mem hl first
      rw [heq]
      exact hc.isSome_mem (mem_append_left _ hx)
  unfold unlink
  by_cases hnull : lastRef .node l first = .null
  · simp only [hnull, ne_eq, not_true_eq_false, if_false, if_true]
    cases r with
    | nil =>
      simp only [headRef_nil, not_true_eq_false, if_false]
      rw [setBegin, Heap.modify_eq (by simpa using hp'), bind_some, bumpCount,
        Heap.modify_eq (by simpa using hp'), bind_some]
      rfl
    | cons y r =>
      simp only [headRef_cons, reduceCtorEq, not_false_eq_true, if_true]
      rw [Heap.setPrev_eq (hvnext y r rfl), bind_some, setBegin,
        Heap.modify_eq (by simpa using hp'), bind_some, bumpCount,
        Heap.modify_eq (by simpa using hp'), bind_some]
      rfl
  · have hv := hvprev hnull
    simp only [ne_eq, hnull, not_false_eq_true, if_true, if_false, Heap.setNext_eq hv, bind_some]
    cases r with
    | nil =>
      simp only [headRef_nil, not_true_eq_false, if_false, if_true]
      rw [setEnd, Heap.modify_eq (by simpa using hp'), bind_some, bumpCount,
        Heap.modify_eq (by simpa using hp'), bind_some]
      rfl
    | cons y r =>
      have hy : (h.putNext (lastRef .node l first) (.node y)).Valid (.node y) :=
        Heap.valid_congr (fun b => Heap.isSome_putNext ..) (hvnext y r rfl)
      simp only [headRef_cons, reduceCtorEq, not_false_eq_true, if_true, if_false]
      rw [Heap.setPrev_eq hy, bind_some, bumpCount, Heap.modify_eq (by simpa using hp'), bind_some]
      rfl

section Unlink

variable {h : Heap α} {p a : Nat} {first last : Ref} {l r : List Nat}

theorem quiet_unlink {prev next : Ref} : Heap.Quiet h (unlink h p prev next) := by
  unfold unlink
  split
  · exact (Heap.quiet_putPrev ..).trans <| (Heap.quiet_putNext ..).trans <|
      Heap.quiet_putListCount ..
  · exact (Heap.quiet_putNext ..).trans <| (Heap.quiet_putPrev ..).trans <|
      Heap.quiet_putListCount ..

theorem links_unlink {prev next : Ref} (b : Nat) :
    (unlink h p prev next).links b =
      linkPrev .node (linkNext .node h.links prev next) next prev b := by
  unfold unlink
  split
  · next hnull =>
      subst hnull
      simp [linkPrev, linkNext]
  · next hnull =>
      simp only [Heap.links_putListCount, Heap.links_putPrev, Heap.links_putNext]
      by_cases hnext : next = .null
      · simp [hnext, linkPrev]
      · rw [if_neg hnext]

theorem seg_unlink (hc : Chain h p first last (l ++ a :: r)) :
    Seg .node (unlink h p (lastRef .node l first) (headRef .node r .null)).links first .null
      (l ++ r) := by
  have hnd := (nodup_cons.mp hc.nodup).2
  rw [nodup_append, nodup_cons] at hnd
  obtain ⟨hndl, ⟨har, hndr⟩, hdisj⟩ := hnd
  have hfirst : ∀ x, first ≠ .node x := by
    rintro x rfl
    rcases hc.first_eq with h | h <;> cases h
  obtain ⟨hl, -, hr⟩ := seg_append.mp hc.seg
  have hlr : ∀ x ∈ l, x ∉ r := fun x hx hxr => hdisj x hx x (mem_cons_of_mem a hxr) rfl
  refine Seg.congr (m := linkPrev .node (linkNext .node h.links (lastRef .node l first)
    (headRef .node r .null)) (headRef .node r .null) (lastRef .node l first)) ?_
    fun x _ => links_unlink x
  refine seg_append.mpr ⟨?_, ?_⟩
  · refine (hl.linkNext_last node_injective hndl _).linkPrev_out (fun x hx heq => ?_) _
    exact headRef_ne (hlr x hx) (by simp) heq.symm
  · refine (hr.linkNext_out (fun x hx heq => ?_) _).linkPrev_head node_injective hndr _
    exact lastRef_ne (fun hxl => hlr x hxl hx) (hfirst x) heq.symm

theorem list_unlink (hc : Chain h p first last (l ++ a :: r)) :
    (unlink h p (lastRef .node l first) (headRef .node r .null)).list p =
      some ⟨headRef .node (l ++ r) .null,
        if r = [] ∧ lastRef .node l first ≠ .null then lastRef .node l first else last,
        (l ++ r).length⟩ := by
  unfold unlink
  by_cases hl : l = []
  · subst hl
    rcases hc.first_eq with rfl | rfl <;> rcases r with _ | ⟨y, r⟩ <;>
      simp [Heap.list_putListCount, Heap.list_putPrev, Heap.list_putNext, hc.list]
  · obtain ⟨x, -, heq⟩ := lastRef_mem hl first
    obtain ⟨z, l', rfl⟩ := exists_cons_of_ne_nil hl
    rw [heq]
    rcases r with _ | ⟨y, r⟩ <;>
      simp [Heap.list_putListCount, Heap.list_putPrev, Heap.list_putNext, hc.list, Nat.add_assoc]

theorem Chain.unlink (hc : Chain h p first last (l ++ a :: r)) :
    Chain (unlink h p (lastRef .node l first) (headRef .node r .null)) p first
      (if r = [] ∧ lastRef .node l first ≠ .null then lastRef .node l first else last)
      (l ++ r) where
  list := list_unlink hc
  seg := seg_unlink hc
  parent := by
    intro x hx
    rw [quiet_unlink.parent]
    refine hc.parent x ?_
    simp only [mem_append, mem_cons] at hx ⊢
    exact hx.imp_right .inr
  nodup := by
    refine hc.nodup.sublist (List.Sublist.cons_cons p ?_)
    exact List.Sublist.append_left (sublist_cons_self a r) l
  first_eq := hc.first_eq

theorem frame_unlink (hc : Chain h p first last (l ++ a :: r)) :
    Frame h (Cnary.unlink h p (lastRef .node l first) (headRef .node r .null)) p (l ++ r) := by
  have hprev : ∀ b, b ≠ p → lastRef .node l first ≠ .list b := by
    intro b hb
    by_cases hl : l = []
    · subst hl
      rcases hc.first_eq with rfl | rfl <;> simp [Ne.symm hb]
    · obtain ⟨x, -, heq⟩ := lastRef_mem hl first
      simp [heq]
  have hnext : ∀ b, headRef Ref.node r .null ≠ .list b := by
    cases r <;> simp
  have hend : ∀ b, b ≠ p →
      (if headRef Ref.node r .null = .null then .list p else headRef Ref.node r .null) ≠ .list b := by
    intro b hb
    split
    · exact fun h => hb (Ref.list.inj h).symm
    · exact hnext b
  refine ⟨fun b hb => ?_, fun b hb => ?_, quiet_unlink.data, quiet_unlink.top⟩
  · simp only [mem_cons, mem_append, not_or] at hb
    obtain ⟨hbp, hbl, hbr⟩ := hb
    have hfirst : first ≠ .node b := by
      rcases hc.first_eq with rfl | rfl <;> simp
    have hprevn : lastRef .node l first ≠ .node b := lastRef_ne hbl hfirst
    have hnextn : headRef Ref.node r .null ≠ .node b := headRef_ne hbr (by simp)
    have hendn : (if headRef Ref.node r .null = .null then .list p else headRef Ref.node r .null) ≠
        .node b := by
      split
      · simp
      · exact hnextn
    unfold Cnary.unlink
    split
    · rw [Heap.putListCount, Heap.cells_adjust, if_neg hbp,
        Heap.cells_putNext (by simp) (fun h => hbp (Ref.list.inj h).symm),
        Heap.cells_putPrev hnextn (hnext b)]
    · rw [Heap.putListCount, Heap.cells_adjust, if_neg hbp, Heap.cells_putPrev hendn (hend b hbp),
        Heap.cells_putNext hprevn (hprev b hbp)]
  · unfold Cnary.unlink
    split
    · rw [Heap.list_putListCount, if_neg hb, Heap.list_putNext,
        if_neg (fun h => hb (Ref.list.inj h).symm), Heap.list_putPrev, if_neg (hnext b)]
    · rw [Heap.list_putListCount, if_neg hb, Heap.list_putPrev, if_neg (hend b hb),
        Heap.list_putNext, if_neg (hprev b hb)]

end Unlink

theorem Chain.nodeDetach {h : Heap α} {p a : Nat} {first last : Ref} {l r : List Nat}
    (hc : Chain h p first last (l ++ a :: r)) :
    ∃ h', nodeDetach h (.node p) a = some (h', some l.length) ∧
      Chain h' p first (if r = [] ∧ lastRef .node l first ≠ .null then lastRef .node l first else last)
        (l ++ r) ∧
      Frame h h' p (l ++ r) ∧ h'.parent = h.parent ∧ h'.count p = (h.count p).map (· - 1) := by
  have hrun := hc.nodeListRemove
  have hf := frame_unlink hc
  refine ⟨(Cnary.unlink h p (lastRef .node l first) (headRef .node r .null)).putCount p (· - 1),
    ?_, ?_, ?_, ?_, ?_⟩
  · simp only [Cnary.nodeDetach, hrun, bind_eq_bind, bind_some, bumpNodeCount]
    rw [Heap.modify_eq hc.unlink.isSome, bind_some]
    rfl
  · exact hc.unlink.congr (by simp) (by simp) (by simp)
  · refine ⟨fun b hb => ?_, fun b hb => ?_, ?_, hf.top⟩
    · rw [Heap.putCount, Heap.cells_adjust, if_neg (ne_of_not_mem_cons hb), hf.out b hb]
    · rw [Heap.list_putCount, hf.list b hb]
    · rw [Heap.data_putCount, hf.data]
  · rw [Heap.parent_putCount, quiet_unlink.parent]
  · rw [Heap.count_putCount, quiet_unlink.count]

theorem Children.nodeDetach (hc : Children h p first (l ++ a :: r))
    (hok : l ++ r = [] → first = .list p) :
    ∃ h', nodeDetach h (.node p) a = some (h', some l.length) ∧ Children h' p first (l ++ r) ∧
      Frame h h' p (l ++ r) ∧ h'.parent = h.parent := by
  obtain ⟨h', hrun, hchain, hf, hpar, hcount⟩ := hc.toChain.nodeDetach
  refine ⟨h', hrun, ⟨?_, ?_⟩, hf, hpar⟩
  · have hlast : (if r = [] ∧ lastRef .node l first ≠ .null then lastRef .node l first
        else lastRef .node (l ++ a :: r) (.list p)) = lastRef Ref.node (l ++ r) (.list p) := by
      cases r with
      | cons y r => simp
      | nil =>
        rw [append_nil]
        by_cases hl : l = []
        · subst hl
          simp [hok rfl]
        · obtain ⟨x, -, heq⟩ := lastRef_mem hl first
          simp only [heq, ne_eq, reduceCtorEq, not_false_eq_true, and_self, if_true]
          rw [← heq]
          exact lastRef_eq_of_ne_nil hl _ _
    exact hlast ▸ hchain
  · rw [hcount, hc.count]
    simp

theorem nodeDetach_dangling (hc : Children h p .null [a]) :
    ∃ h', nodeDetach h (.node p) a = some (h', some 0) ∧ Chain h' p .null (.node a) [] ∧
      Frame h h' p [] ∧ h'.parent = h.parent ∧ h'.count p = some 0 := by
  obtain ⟨h', hrun, hchain, hf, hpar, hcount⟩ :=
    (show Chain h p .null (.node a) ([] ++ a :: []) from hc.toChain).nodeDetach
  refine ⟨h', hrun, by simpa using hchain, by simpa using hf, hpar, ?_⟩
  rw [hcount, hc.count]
  rfl

end IDeviceStack.Cnary
