/-
# `Cnary.Region` — a part of memory that keeps to itself

A region is a set of addresses; it is closed if no pointer in it leads out of it.  An operation
of `libcnary` that is given nodes of a closed region writes to that region alone, and the region
stays closed (`Stays`), whatever shape the lists in it have.  What data may point to is left to
the predicate `D`.
-/
import IDeviceStack.Cnary.Node

namespace IDeviceStack.Cnary

open Option

variable {α : Type}

/-- The pointer is `NULL` or leads into the region. -/
def RefIn (S : Nat → Prop) : Ref → Prop
  | .null => True
  | .node a => S a
  | .list p => S p

/-- All pointers of a node lead into the region. -/
structure NodeIn (S : Nat → Prop) (D : α → Prop) (n : Node α) : Prop where
  next : RefIn S n.next
  prev : RefIn S n.prev
  parent : RefIn S n.parent
  beginRef : RefIn S n.children.beginRef
  endRef : RefIn S n.children.endRef
  data : D n.data

/-- No pointer leads out of the region. -/
def Closed (S : Nat → Prop) (D : α → Prop) (h : Heap α) : Prop :=
  ∀ a n, S a → h.cells a = some n → NodeIn S D n

/-- Going from `h` to `h'` left the region closed, and changed nothing outside of it. -/
structure Stays (S : Nat → Prop) (D : α → Prop) (h h' : Heap α) : Prop where
  closed : Closed S D h'
  out : ∀ b, ¬ S b → h'.cells b = h.cells b
  top : h.top ≤ h'.top

section Stays

variable {S : Nat → Prop} {D : α → Prop} {h h' h'' : Heap α} {a p : Nat} {r v : Ref}

theorem Closed.stays (hc : Closed S D h) : Stays S D h h := ⟨hc, fun _ _ => rfl, Nat.le_refl _⟩

theorem Stays.trans (h1 : Stays S D h h') (h2 : Stays S D h' h'') : Stays S D h h'' :=
  ⟨h2.closed, fun b hb => (h2.out b hb).trans (h1.out b hb), h1.top.trans h2.top⟩

/-! ## Reads -/

theorem Closed.getNext (hc : Closed S D h) (hr : RefIn S r) (hrun : h.getNext r = some v) :
    RefIn S v := by
  cases r with
  | null => cases hrun
  | node a =>
    obtain ⟨n, hn, rfl⟩ := map_eq_some_iff.mp hrun
    exact (hc a n hr hn).next
  | list p =>
    obtain ⟨n, hn, rfl⟩ := map_eq_some_iff.mp hrun
    exact (hc p n hr hn).beginRef

theorem Closed.nodeNextSibling (hc : Closed S D h) (hr : RefIn S r)
    (hrun : nodeNextSibling h r = some v) : RefIn S v := by
  cases r with
  | null =>
    cases hrun
    exact trivial
  | node a => exact hc.getNext hr hrun
  | list p => exact hc.getNext hr hrun

theorem Closed.nodePrevSibling (hc : Closed S D h) (hr : RefIn S r)
    (hrun : nodePrevSibling h r = some v) : RefIn S v := by
  cases r with
  | null =>
    cases hrun
    exact trivial
  | node a =>
    obtain ⟨n, hn, rfl⟩ := map_eq_some_iff.mp hrun
    exact (hc a n hr hn).prev
  | list p =>
    obtain ⟨n, hn, rfl⟩ := map_eq_some_iff.mp hrun
    exact (hc p n hr hn).endRef

theorem Closed.nodeFirstChild (hc : Closed S D h) (hp : S p) (hrun : nodeFirstChild h p = some v) :
    RefIn S v := by
  obtain ⟨n, hn, rfl⟩ := map_eq_some_iff.mp hrun
  exact (hc p n hp hn).beginRef

theorem Closed.advance (hc : Closed S D h) {k : Nat} {prev cur prev' cur' : Ref}
    (hprev : RefIn S prev) (hcur : RefIn S cur) (hrun : advance h k prev cur = some (prev', cur')) :
    RefIn S prev' := by
  induction k generalizing prev cur with
  | zero =>
    cases hrun
    exact hprev
  | succ k ih =>
    rw [Cnary.advance] at hrun
    obtain ⟨next, hnext, hrun⟩ := bind_eq_some_iff.mp hrun
    exact ih hcur (hc.getNext hcur hnext) hrun

/-! ## Writes -/

theorem Closed.modify {f : Node α → Node α} (hc : Closed S D h) (ha : S a)
    (hrun : h.modify a f = some h') (hf : ∀ n, NodeIn S D n → NodeIn S D (f n)) :
    Stays S D h h' := by
  rw [Heap.modify] at hrun
  split at hrun
  · cases hrun
    refine ⟨fun b n hb hn => ?_, fun b hb => if_neg ?_, Nat.le_refl _⟩
    · rw [Heap.adjust] at hn
      dsimp only at hn
      split at hn
      · obtain ⟨m, hm, rfl⟩ := map_eq_some_iff.mp hn
        exact hf m (hc b m hb hm)
      · exact hc b n hb hn
    · rintro rfl
      exact hb ha
  · cases hrun

theorem Closed.setNext (hc : Closed S D h) (hr : RefIn S r) (hv : RefIn S v)
    (hrun : h.setNext r v = some h') : Stays S D h h' := by
  cases r with
  | null => cases hrun
  | node a => exact hc.modify hr hrun fun n hn => { hn with next := hv }
  | list p => exact hc.modify hr hrun fun n hn => { hn with beginRef := hv }

theorem Closed.setPrev (hc : Closed S D h) (hr : RefIn S r) (hv : RefIn S v)
    (hrun : h.setPrev r v = some h') : Stays S D h h' := by
  cases r with
  | null => cases hrun
  | node a => exact hc.modify hr hrun fun n hn => { hn with prev := hv }
  | list p => exact hc.modify hr hrun fun n hn => { hn with endRef := hv }

theorem Closed.setBegin (hc : Closed S D h) (hp : S p) (hv : RefIn S v)
    (hrun : setBegin h p v = some h') : Stays S D h h' :=
  hc.modify hp hrun fun _ hn => { hn with beginRef := hv }

theorem Closed.setEnd (hc : Closed S D h) (hp : S p) (hv : RefIn S v)
    (hrun : setEnd h p v = some h') : Stays S D h h' :=
  hc.modify hp hrun fun _ hn => { hn with endRef := hv }

theorem Closed.bumpCount {f : Nat → Nat} (hc : Closed S D h) (hp : S p)
    (hrun : bumpCount h p f = some h') : Stays S D h h' :=
  hc.modify hp hrun fun _ hn => ⟨hn.next, hn.prev, hn.parent, hn.beginRef, hn.endRef, hn.data⟩

theorem Closed.bumpNodeCount {f : Nat → Nat} (hc : Closed S D h) (hp : S p)
    (hrun : bumpNodeCount h p f = some h') : Stays S D h h' :=
  hc.modify hp hrun fun _ hn => ⟨hn.next, hn.prev, hn.parent, hn.beginRef, hn.endRef, hn.data⟩

/-! ## Lists -/

theorem Closed.nodeListAdd (hc : Closed S D h) (hp : S p) (ha : S a)
    (hrun : nodeListAdd h p a = some h') : Stays S D h h' := by
  rw [Cnary.nodeListAdd] at hrun
  obtain ⟨np, hnp, hrun⟩ := bind_eq_some_iff.mp hrun
  obtain ⟨h1, hrun1, hrun⟩ := bind_eq_some_iff.mp hrun
  have hlast := (hc p np hp hnp).endRef
  have s1 := hc.modify ha hrun1 fun n hn => { hn with next := trivial, prev := hlast }
  -- the new node is the end of the list
  have hend : ∀ {h2 : Heap α}, Stays S D h h2 →
      ((Cnary.setEnd h2 p (.node a)).bind fun h3 => Cnary.bumpCount h3 p (· + 1)) = some h' →
      Stays S D h h' := by
    intro h2 s2 hrun
    obtain ⟨h3, hrun3, hrun⟩ := bind_eq_some_iff.mp hrun
    have s3 := s2.closed.setEnd hp (v := .node a) ha hrun3
    exact (s2.trans s3).trans (s3.closed.bumpCount hp hrun)
  dsimp only at hrun
  split at hrun
  · exact hend s1 hrun
  · obtain ⟨h2, hrun2, hrun⟩ := bind_eq_some_iff.mp hrun
    exact hend (s1.trans (s1.closed.setNext hlast (v := .node a) ha hrun2)) hrun

theorem Closed.nodeListInsert {i : Nat} (hc : Closed S D h) (hp : S p) (ha : S a)
    (hrun : nodeListInsert h p i a = some h') : Stays S D h h' := by
  rw [Cnary.nodeListInsert] at hrun
  obtain ⟨np, hnp, hrun⟩ := bind_eq_some_iff.mp hrun
  have hbegin := (hc p np hp hnp).beginRef
  split at hrun
  · exact hc.nodeListAdd hp ha hrun
  · obtain ⟨⟨prev, cur⟩, hadv, hrun⟩ := bind_eq_some_iff.mp hrun
    have hprev := hc.advance (show RefIn S .null from trivial) hbegin hadv
    have hcount : ∀ {h1 h2 : Heap α}, Stays S D h h1 → Stays S D h1 h2 →
        Cnary.bumpCount h2 p (· + 1) = some h' → Stays S D h h' := fun s1 s2 hrun =>
      (s1.trans s2).trans (s2.closed.bumpCount hp hrun)
    -- the node that follows, or the end of the list, points back to the new one
    have hback : ∀ {h1 : Heap α}, Stays S D h h1 →
        ((h1.cells a).bind fun na =>
          if na.next = .null then
            (Cnary.setEnd h1 p (.node a)).bind fun h2 => Cnary.bumpCount h2 p (· + 1)
          else
            (h1.setPrev na.next (.node a)).bind fun h2 => Cnary.bumpCount h2 p (· + 1)) = some h' →
        Stays S D h h' := by
      intro h1 s1 hrun
      obtain ⟨na, hna, hrun⟩ := bind_eq_some_iff.mp hrun
      have hnext := (s1.closed a na ha hna).next
      split at hrun
      · obtain ⟨h2, hrun2, hrun⟩ := bind_eq_some_iff.mp hrun
        exact hcount s1 (s1.closed.setEnd hp (v := .node a) ha hrun2) hrun
      · obtain ⟨h2, hrun2, hrun⟩ := bind_eq_some_iff.mp hrun
        exact hcount s1 (s1.closed.setPrev hnext (v := .node a) ha hrun2) hrun
    dsimp only at hrun
    split at hrun
    · obtain ⟨next, hnext, hrun⟩ := bind_eq_some_iff.mp hrun
      obtain ⟨h0, hrun0, hrun⟩ := bind_eq_some_iff.mp hrun
      obtain ⟨h1, hrun1, hrun⟩ := bind_eq_some_iff.mp hrun
      have hnext := hc.getNext hprev hnext
      have s0 := hc.modify ha hrun0 fun n hn => { hn with prev := hprev, next := hnext }
      exact hback (s0.trans (s0.closed.setNext hprev (v := .node a) ha hrun1)) hrun
    · obtain ⟨h0, hrun0, hrun⟩ := bind_eq_some_iff.mp hrun
      obtain ⟨h1, hrun1, hrun⟩ := bind_eq_some_iff.mp hrun
      have s0 := hc.modify ha hrun0 fun n hn => { hn with prev := trivial, next := hbegin }
      exact hback (s0.trans (s0.closed.setBegin hp (v := .node a) ha hrun1)) hrun

theorem Closed.nodeListRemove {i : Option Nat} (hc : Closed S D h) (hp : S p) (ha : S a)
    (hrun : nodeListRemove h p a = some (h', i)) : Stays S D h h' := by
  rw [Cnary.nodeListRemove] at hrun
  obtain ⟨np, hnp, hrun⟩ := bind_eq_some_iff.mp hrun
  split at hrun
  · cases hrun
    exact hc.stays
  · obtain ⟨pos, -, hrun⟩ := bind_eq_some_iff.mp hrun
    cases pos with
    | none =>
      cases hrun
      exact hc.stays
    | some k =>
      obtain ⟨na, hna, hrun⟩ := bind_eq_some_iff.mp hrun
      have hin := hc a na ha hna
      have hcount : ∀ {h1 : Heap α}, Stays S D h h1 →
          ((Cnary.bumpCount h1 p (· - 1)).bind fun h2 => some (h2, some k)) = some (h', i) →
          Stays S D h h' := by
        intro h1 s1 hrun
        obtain ⟨h2, hrun2, hrun⟩ := bind_eq_some_iff.mp hrun
        cases hrun
        exact s1.trans (s1.closed.bumpCount hp hrun2)
      dsimp only at hrun
      split at hrun
      · obtain ⟨h0, hrun0, hrun⟩ := bind_eq_some_iff.mp hrun
        have s0 := hc.setNext hin.prev hin.next hrun0
        split at hrun
        · obtain ⟨h1, hrun1, hrun⟩ := bind_eq_some_iff.mp hrun
          exact hcount (s0.trans (s0.closed.setPrev hin.next hin.prev hrun1)) hrun
        · obtain ⟨h1, hrun1, hrun⟩ := bind_eq_some_iff.mp hrun
          exact hcount (s0.trans (s0.closed.setEnd hp hin.prev hrun1)) hrun
      · split at hrun
        · obtain ⟨h0, hrun0, hrun⟩ := bind_eq_some_iff.mp hrun
          obtain ⟨h1, hrun1, hrun⟩ := bind_eq_some_iff.mp hrun
          have s0 := hc.setPrev hin.next (v := .null) trivial hrun0
          exact hcount (s0.trans (s0.closed.setBegin hp hin.next hrun1)) hrun
        · simp only [bind_eq_bind, bind_some] at hrun
          obtain ⟨h1, hrun1, hrun⟩ := bind_eq_some_iff.mp hrun
          exact hcount (hc.setBegin hp hin.next hrun1) hrun

/-! ## Nodes -/

theorem Closed.adopt (hc : Closed S D h) (hp : S p) (ha : S a) (hrun : adopt h p a = some h') :
    Stays S D h h' := by
  rw [Cnary.adopt] at hrun
  obtain ⟨np, -, hrun⟩ := bind_eq_some_iff.mp hrun
  obtain ⟨h1, hrun1, hrun⟩ := bind_eq_some_iff.mp hrun
  have s1 := hc.modify ha hrun1 fun n hn =>
    ⟨hn.next, hn.prev, (hp : RefIn S (.node p)), hn.beginRef, hn.endRef, hn.data⟩
  exact s1.trans (s1.closed.modify hp hrun fun n hn =>
    ⟨hn.next, hn.prev, hn.parent, hn.beginRef, hn.endRef, hn.data⟩)

theorem Closed.nodeAttach (hc : Closed S D h) (hp : S p) (ha : S a)
    (hrun : nodeAttach h p a = some h') : Stays S D h h' := by
  rw [Cnary.nodeAttach] at hrun
  obtain ⟨h1, hrun1, hrun⟩ := bind_eq_some_iff.mp hrun
  obtain ⟨h2, hrun2, hrun⟩ := bind_eq_some_iff.mp hrun
  have s1 := hc.adopt hp ha hrun1
  have s2 := s1.closed.nodeListAdd hp ha hrun2
  exact (s1.trans s2).trans (s2.closed.bumpNodeCount hp hrun)

theorem Closed.nodeInsert {i : Nat} (hc : Closed S D h) (hp : S p) (ha : S a)
    (hrun : nodeInsert h p i a = some h') : Stays S D h h' := by
  rw [Cnary.nodeInsert] at hrun
  obtain ⟨h1, hrun1, hrun⟩ := bind_eq_some_iff.mp hrun
  obtain ⟨h2, hrun2, hrun⟩ := bind_eq_some_iff.mp hrun
  have s1 := hc.adopt hp ha hrun1
  have s2 := s1.closed.nodeListInsert hp ha hrun2
  exact (s1.trans s2).trans (s2.closed.bumpNodeCount hp hrun)

theorem Closed.nodeDetach {i : Option Nat} (hc : Closed S D h) (hr : RefIn S r) (ha : S a)
    (hrun : nodeDetach h r a = some (h', i)) : Stays S D h h' := by
  cases r with
  | null =>
    cases hrun
    exact hc.stays
  | list p =>
    cases hrun
    exact hc.stays
  | node p =>
    rw [Cnary.nodeDetach] at hrun
    obtain ⟨⟨h1, k⟩, hrun1, hrun⟩ := bind_eq_some_iff.mp hrun
    have s1 := hc.nodeListRemove hr ha hrun1
    cases k with
    | none =>
      cases hrun
      exact s1
    | some k =>
      obtain ⟨h2, hrun2, hrun⟩ := bind_eq_some_iff.mp hrun
      cases hrun
      exact s1.trans (s1.closed.bumpNodeCount hr hrun2)

theorem Closed.release (hc : Closed S D h) (ha : S a) : Stays S D h (h.release a) := by
  refine ⟨fun b n hb hn => ?_, fun b hb => if_neg ?_, Nat.le_refl _⟩
  · rw [Heap.release] at hn
    dsimp only at hn
    split at hn
    · cases hn
    · exact hc b n hb hn
  · rintro rfl
    exact hb ha

theorem Closed.nodeCreate {data : α} (hc : Closed S D h) (htop : S h.top) (hdata : D data) :
    Stays S D h (nodeCreate h data).2 := by
  refine ⟨fun b n hb hn => ?_, fun b hb => if_neg ?_, Nat.le_succ _⟩
  · have hcell : (if b = h.top then _ else h.cells b) = some n := hn
    split at hcell
    · cases hcell
      exact ⟨trivial, trivial, trivial, trivial, htop, hdata⟩
    · exact hc b n hb hcell
  · rintro rfl
    exact hb htop

theorem Closed.nodeDestroy_both (fuel : Nat) :
    (∀ {h h' : Heap α} {a : Nat}, Closed S D h → S a → nodeDestroy fuel h a = some h' →
      Stays S D h h') ∧
    (∀ {h h' : Heap α} {a : Nat}, Closed S D h → S a → destroyChildren fuel h a = some h' →
      Stays S D h h') := by
  induction fuel with
  | zero => exact ⟨fun _ _ h => (nomatch h), fun _ _ h => (nomatch h)⟩
  | succ fuel ih =>
    constructor
    · intro h h' a hc ha hrun
      rw [nodeDestroy] at hrun
      obtain ⟨na, -, hrun⟩ := bind_eq_some_iff.mp hrun
      dsimp only at hrun
      split at hrun
      · obtain ⟨h1, hrun1, hrun⟩ := bind_eq_some_iff.mp hrun
        cases hrun
        have s1 := ih.2 hc ha hrun1
        exact s1.trans (s1.closed.release ha)
      · cases hrun
        exact hc.release ha
    · intro h h' a hc ha hrun
      rw [destroyChildren] at hrun
      obtain ⟨na, hna, hrun⟩ := bind_eq_some_iff.mp hrun
      have hbegin := (hc a na ha hna).beginRef
      cases hb : na.children.beginRef with
      | node ch =>
        rw [hb] at hrun hbegin
        obtain ⟨⟨h1, k⟩, hrun1, hrun⟩ := bind_eq_some_iff.mp hrun
        obtain ⟨h2, hrun2, hrun⟩ := bind_eq_some_iff.mp hrun
        have s1 := hc.nodeListRemove ha hbegin hrun1
        have s2 := ih.1 s1.closed hbegin hrun2
        exact (s1.trans s2).trans (ih.2 s2.closed ha hrun)
      | null =>
        rw [hb] at hrun
        cases hrun
        exact hc.stays
      | list p =>
        rw [hb] at hrun
        cases hrun
        exact hc.stays

theorem Closed.nodeDestroy {fuel : Nat} (hc : Closed S D h) (ha : S a)
    (hrun : nodeDestroy fuel h a = some h') : Stays S D h h' :=
  (Closed.nodeDestroy_both fuel).1 hc ha hrun

end Stays

end IDeviceStack.Cnary
