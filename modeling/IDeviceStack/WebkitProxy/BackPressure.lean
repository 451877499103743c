/-
# `WebkitProxy.BackPressure` — a paused fd and its input

A send that is queued in the `on_recv` of an fd takes the fd out of `recv_fds`, and out of
the copy that `select` was given, "to prevent our sendq from growing too large".  The loop of
`sm_recv` looks at neither.

A `Watch` is a socket manager and whether `sm_recv` has called `on_recv` already since it was
entered.

**Proved here.**  `backPressure`.
-/
import IDeviceStack.Lib.Fault
import IDeviceStack.WebkitProxy.FdSets

namespace IDeviceStack.WebkitProxy

open Lib

/-- The fd that `sm_recv` is about. -/
def Phase.reading : Phase → Option Nat
  | .recv fd _ => some fd
  | .onRecv fd _ => some fd
  | .recvEnd fd _ => some fd
  | _ => none

/-- The fd that is read next, once `sm_resend` is through. -/
def Phase.willRead : Phase → Option Nat
  | .onSent fd true _ => some fd
  | .resent fd true _ => some fd
  | _ => none

theorem Phase.willRead_of_reading {phase : Phase} {fd : Nat} (h : phase.reading = some fd) :
    phase.willRead = none := by
  cases phase <;> first | rfl | cases h

namespace Sm

/-! ## What is watched -/

/-- The fd for which a step calls `on_recv`. -/
def invokes (s : Sm) : Event → Option Nat
  | .go a =>
    match s.calls, s.phase, a.recv with
    | [], .recv fd _, .received => some fd
    | _, _, _ => none
  | _ => none

/-- The fd that the last send that names it, by this step, no longer does. -/
def drains (s : Sm) : Event → Option Nat
  | .go _ =>
    match s.calls, s.phase with
    | [], .onSent fd _ _ =>
      match s.queue fd with
      | node :: nodes =>
        if (s.setQueue fd nodes).fdToSendq.names node.recvFd = false then some node.recvFd
        else none
      | [] => none
    | _, _ => none
  | _ => none

/-- A step as the comment in `sm_send` has it. -/
structure Pressed (s : Sm) (e : Event) : Prop where
  /-- No queued send names an fd for which `on_recv` is called. -/
  paused : ∀ fd ∈ s.invokes e, s.fdToSendq.names fd = false
  resumed : ∀ fd ∈ s.drains e, fd ∈ (s.step e).recvFds ↔ fd ∈ (s.step e).allFds

end Sm

/-- A socket manager, and whether `sm_recv` is past its first call of `on_recv`. -/
structure Watch where
  sm : Sm
  again : Bool

namespace Watch

def new : Watch := ⟨.new, false⟩

/-- Whether `sm_recv` goes round again. -/
def rounds (w : Watch) : Sm.Event → Bool
  | .go _ =>
    match w.sm.calls, w.sm.phase with
    | [], .resent _ _ _ => false
    | [], .onRecv _ _ => true
    | _, _ => w.again
  | _ => w.again

def step (w : Watch) (e : Sm.Event) : Watch := ⟨w.sm.step e, w.rounds e⟩

/-- The conditions of a step. -/
structure Waits (w : Watch) (e : Sm.Event) : Prop where
  /-- `sm_recv` finds no bytes in a further turn if a send names its fd. -/
  again : w.again = true → ∀ fd ∈ w.sm.invokes e, w.sm.fdToSendq.names fd = false
  /-- An fd that is added is not 0, and no send names it. -/
  adds : ∀ fd ∈ w.sm.adds e, fd ≠ 0 ∧ w.sm.fdToSendq.names fd = false

/-- All steps of a run. -/
abbrev All (P : Watch → Sm.Event → Prop) (w : Watch) (events : List Sm.Event) : Prop :=
  Along (ε := Empty) (fun w e => .ok (w.step e)) P w events

end Watch

namespace Sm

/-! ## The invariant -/

/-- The sets. -/
structure Unpaused (s : Sm) : Prop where
  free : ∀ fd ∈ s.recvFds, ¬ s.Paused fd
  tmp : s.tmpRecvFds ⊆ s.recvFds
  sub : s.recvFds ⊆ s.allFds
  zero : 0 ∉ s.allFds

/-- Where `sm_select` stands. -/
structure Placed (s : Sm) (again : Bool) : Prop where
  curr : s.currRecvFd ≠ 0 → s.phase.reading = some s.currRecvFd
  quiet : ∀ fd n, s.phase = .recv fd n → s.calls = []
  next : ∀ fd, s.phase.willRead = some fd → fd ≠ 0 ∧ ¬ s.Paused fd
  reads : ∀ fd, s.phase.reading = some fd → fd ≠ 0
  first : ∀ fd n, s.phase = .recv fd n → again = false → ¬ s.Paused fd

theorem unpaused_new : new.Unpaused :=
  ⟨fun _ h => absurd h (Finset.notMem_empty _), Finset.Subset.refl _, Finset.Subset.refl _,
    Finset.notMem_empty _⟩

theorem placed_new : new.Placed false :=
  ⟨fun h => absurd rfl h, fun _ _ h => (nomatch h), fun _ h => (nomatch h),
    fun _ h => (nomatch h), fun _ _ h => (nomatch h)⟩

section Sets

variable {s s' : Sm} {fd : Nat}

theorem Unpaused.congr (h : s.Unpaused) (hrecv : s'.recvFds = s.recvFds)
    (htmp : s'.tmpRecvFds = s.tmpRecvFds) (hall : s'.allFds = s.allFds)
    (hpaused : ∀ r, s'.Paused r → s.Paused r) : s'.Unpaused := by
  refine ⟨fun r hr hp => ?_, ?_, ?_, ?_⟩
  · rw [hrecv] at hr
    exact h.free r hr (hpaused r hp)
  · rw [htmp, hrecv]
    exact h.tmp
  · rw [hrecv, hall]
    exact h.sub
  · rw [hall]
    exact h.zero

theorem Unpaused.enter (h : s.Unpaused) (phase : Phase) : (s.enter phase).Unpaused :=
  h.congr rfl rfl rfl fun _ hp => hp

theorem Unpaused.removeFd (h : s.Unpaused) : (s.removeFd fd).Unpaused := by
  rw [Sm.removeFd]
  split
  · exact h
  · exact h.congr rfl rfl rfl fun _ hp => hp

variable {value : Nat}

theorem Unpaused.addFd (h : s.Unpaused) {isServer : Bool}
    (hadds : fd ∉ s.allFds → s.fdToValue fd = 0 → fd ≠ 0 ∧ s.fdToSendq.names fd = false) :
    (s.addFd fd value isServer).2.Unpaused := by
  rw [Sm.addFd]
  split
  · exact h
  · next hfd =>
      dsimp only
      split
      · exact h.congr rfl rfl rfl fun _ hp => hp
      · next hvalue =>
          obtain ⟨hne, hnames⟩ := hadds hfd (not_not.1 hvalue)
          refine ⟨fun r hr hp => ?_, ?_, ?_, ?_⟩
          · rcases Finset.mem_insert.1 hr with rfl | hr
            · rw [show s.fdToSendq.names r = true from hp.2] at hnames
              cases hnames
            · exact h.free r hr hp
          · exact (Finset.erase_subset _ _).trans (h.tmp.trans (Finset.subset_insert _ _))
          · exact Finset.insert_subset_insert _ h.sub
          · intro hmem
            rcases Finset.mem_insert.1 hmem with heq | hmem
            · exact hne heq.symm
            · exact h.zero hmem

theorem Unpaused.closed (h : s.Unpaused) {isServer : Bool} : (s.closed fd isServer).Unpaused := by
  refine ⟨fun r hr hp => ?_, Finset.erase_subset_erase _ h.tmp, Finset.erase_subset_erase _ h.sub,
    fun hmem => h.zero (Finset.mem_of_mem_erase hmem)⟩
  exact h.free r (Finset.mem_of_mem_erase hr) ((paused_closed isServer r).1 hp).1

theorem Unpaused.enqueue (h : s.Unpaused) {rest : List UInt8} :
    (s.enqueue fd value rest).Unpaused := by
  have hpaused := @paused_enqueue s fd value rest
  by_cases hnamed : s.currRecvFd ≠ 0 ∧ s.currRecvFd ∈ s.recvFds
  · have hrecv : (s.enqueue fd value rest).recvFds = s.recvFds.erase s.currRecvFd := by
      rw [Sm.enqueue]
      exact if_pos (decide_eq_true hnamed)
    have htmp : (s.enqueue fd value rest).tmpRecvFds = s.tmpRecvFds.erase s.currRecvFd := by
      rw [Sm.enqueue]
      exact if_pos (decide_eq_true hnamed)
    refine ⟨fun r hr hp => ?_, ?_, ?_, h.zero⟩
    · rw [hrecv] at hr
      rcases (hpaused r).1 hp with hp | ⟨-, heq⟩
      · exact h.free r (Finset.mem_of_mem_erase hr) hp
      · exact Finset.ne_of_mem_erase hr heq
    · rw [hrecv, htmp]
      exact Finset.erase_subset_erase _ h.tmp
    · rw [hrecv]
      exact (Finset.erase_subset _ _).trans h.sub
  · have hno : ¬ decide (s.currRecvFd ≠ 0 ∧ s.currRecvFd ∈ s.recvFds) = true := by
      rw [decide_eq_true_eq]
      exact hnamed
    have hrecv : (s.enqueue fd value rest).recvFds = s.recvFds := if_neg hno
    have htmp : (s.enqueue fd value rest).tmpRecvFds = s.tmpRecvFds := if_neg hno
    refine ⟨fun r hr hp => ?_, ?_, ?_, h.zero⟩
    · rw [hrecv] at hr
      rcases (hpaused r).1 hp with hp | ⟨h0, rfl⟩
      · exact h.free r hr hp
      · exact hnamed ⟨h0, hr⟩
    · rw [hrecv, htmp]
      exact h.tmp
    · rw [hrecv]
      exact h.sub

theorem paused_pop {r : Nat} (hp : (s.pop fd).Paused r) : s.Paused r := by
  rw [Sm.pop] at hp
  split at hp
  · exact hp
  · next node nodes hqueue =>
      rw [paused_put (s := s) rfl] at hp
      rw [paused_iff fd, hqueue]
      refine ⟨hp.1, hp.2.imp_left ?_⟩
      rintro ⟨node', hnode, heq⟩
      exact ⟨node', List.mem_cons_of_mem _ hnode, heq⟩

theorem Unpaused.pop (h : s.Unpaused) : (s.pop fd).Unpaused := by
  rw [Sm.pop]
  split
  · exact h
  · next node nodes hqueue =>
      have hless : ∀ r, (s.setQueue fd nodes).Paused r → s.Paused r := by
        intro r hp
        refine @paused_pop s fd r ?_
        rw [Sm.pop, hqueue]
        exact hp
      dsimp only
      generalize hrecv : (if node.recvFd ≠ 0 ∧ node.recvFd ∈ s.allFds ∧
          (s.setQueue fd nodes).fdToSendq.names node.recvFd = false then
        insert node.recvFd s.recvFds else s.recvFds) = recvFds
      split at hrecv
      · next hagain =>
          obtain ⟨h0, hall, hnames⟩ := hagain
          subst hrecv
          refine ⟨fun r hr hp => ?_, h.tmp.trans (Finset.subset_insert _ _), ?_, h.zero⟩
          · rcases Finset.mem_insert.1 hr with rfl | hr
            · rw [show (s.setQueue fd nodes).fdToSendq.names _ = true from hp.2] at hnames
              cases hnames
            · exact h.free r hr (hless r hp)
          · exact Finset.insert_subset hall h.sub
      · subst hrecv
        exact h.congr rfl rfl rfl hless

theorem Unpaused.pop_recvFds (h : s.Unpaused) {node : Sendq} {nodes : List Sendq}
    (hqueue : s.queue fd = node :: nodes)
    (hnames : (s.setQueue fd nodes).fdToSendq.names node.recvFd = false) :
    node.recvFd ∈ (s.pop fd).recvFds ↔ node.recvFd ∈ (s.pop fd).allFds := by
  rw [Sm.pop, hqueue]
  dsimp only
  by_cases hagain : node.recvFd ≠ 0 ∧ node.recvFd ∈ s.allFds
  · rw [if_pos ⟨hagain.1, hagain.2, hnames⟩]
    exact iff_of_true (Finset.mem_insert_self _ _) hagain.2
  · have hgone : node.recvFd ∉ s.allFds := by
      intro hall
      refine hagain ⟨fun h0 => ?_, hall⟩
      rw [h0] at hall
      exact h.zero hall
    rw [if_neg fun hif => hagain ⟨hif.1, hif.2.1⟩]
    exact iff_of_false (fun hrecv => hgone (h.sub hrecv)) hgone

theorem resend_sets (s : Sm) (fd : Nat) (canRecv : Bool) (numLeft : Nat)
    (results : List SendResult) : (s.resend fd canRecv numLeft results).recvFds = s.recvFds ∧
      (s.resend fd canRecv numLeft results).allFds = s.allFds := by
  rw [Sm.resend]
  split
  · exact ⟨rfl, rfl⟩
  · dsimp only
    split
    · rw [Sm.removeFd]
      split <;> exact ⟨rfl, rfl⟩
    · exact ⟨rfl, rfl⟩
    · exact ⟨rfl, rfl⟩

theorem paused_rest {node : Sendq} {nodes : List Sendq} (hqueue : s.queue fd = node :: nodes)
    (rest : List UInt8) (r : Nat) :
    (s.setQueue fd ({ node with rest := rest } :: nodes)).Paused r ↔ s.Paused r := by
  refine paused_setQueue (fun r => ?_) r
  rw [hqueue]
  simp only [List.mem_cons, exists_eq_or_imp]

/-! ## Where `sm_select` stands -/

/-- What a call in a callback may change. -/
structure Within (s s' : Sm) : Prop where
  phase : s'.phase = s.phase
  curr : s'.currRecvFd = s.currRecvFd
  paused : ∀ r, s'.Paused r → s.Paused r ∨ s.currRecvFd ≠ 0 ∧ r = s.currRecvFd

variable {again : Bool}

theorem Placed.within (h : s.Placed again) (hno : ∀ fd n, s.phase ≠ .recv fd n) (hw : Within s s') :
    s'.Placed again := by
  refine ⟨fun h0 => ?_, fun fd n hrecv => ?_, fun fd hnext => ?_, fun fd hread => ?_,
    fun fd n hrecv => ?_⟩
  · rw [hw.curr] at h0 ⊢
    rw [hw.phase]
    exact h.curr h0
  · rw [hw.phase] at hrecv
    exact absurd hrecv (hno fd n)
  · rw [hw.phase] at hnext
    refine ⟨(h.next fd hnext).1, fun hp => ?_⟩
    rcases hw.paused fd hp with hp | ⟨h0, rfl⟩
    · exact (h.next fd hnext).2 hp
    · rw [Phase.willRead_of_reading (h.curr h0)] at hnext
      cases hnext
  · rw [hw.phase] at hread
    exact h.reads fd hread
  · rw [hw.phase] at hrecv
    exact absurd hrecv (hno fd n)

theorem placed_outside (hcurr : s.currRecvFd = 0) (hread : s.phase.reading = none)
    (hnext : ∀ fd, s.phase.willRead = some fd → fd ≠ 0 ∧ ¬ s.Paused fd) : s.Placed again := by
  refine ⟨fun h => absurd hcurr h, fun fd n h => ?_, hnext, fun fd h => ?_, fun fd n h => ?_⟩
  · rw [h] at hread
    cases hread
  · rw [h] at hread
    cases hread
  · rw [h] at hread
    cases hread

theorem placed_inside (hread : s.phase.reading = some fd) (h0 : fd ≠ 0)
    (hcurr : s.currRecvFd ≠ 0 → s.currRecvFd = fd) (hno : ∀ fd n, s.phase ≠ .recv fd n) :
    s.Placed again := by
  refine ⟨fun h => ?_, fun fd n h => absurd h (hno fd n), fun fd' h => ?_, fun fd' h => ?_,
    fun fd n h => absurd h (hno fd n)⟩
  · rw [hcurr h]
    exact hread
  · rw [Phase.willRead_of_reading hread] at h
    cases h
  · rw [hread] at h
    cases h
    exact h0

theorem within_removeFd (s : Sm) (fd : Nat) : Within s (s.removeFd fd) := by
  rw [Sm.removeFd]
  split
  · exact ⟨rfl, rfl, fun _ hp => .inl hp⟩
  · exact ⟨rfl, rfl, fun _ hp => .inl hp⟩

theorem within_addFd (s : Sm) (fd value : Nat) (isServer : Bool) :
    Within s (s.addFd fd value isServer).2 := by
  rw [Sm.addFd]
  split
  · exact ⟨rfl, rfl, fun _ hp => .inl hp⟩
  · dsimp only
    split
    · exact ⟨rfl, rfl, fun _ hp => .inl hp⟩
    · exact ⟨rfl, rfl, fun _ hp => .inl hp⟩

theorem within_send (s : Sm) (fd : Nat) (data : List UInt8) (value : Nat)
    (results : List SendResult) : Within s (s.send fd data value results) := by
  rw [Sm.send]
  split
  · exact ⟨rfl, rfl, fun _ hp => .inl hp⟩
  · refine ⟨rfl, rfl, fun r hp => ?_⟩
    exact (paused_enqueue (s := s.note fd fun b => b.send data (s.sendNow fd data results).2.1)
      value _ r).1 hp
  · exact ⟨rfl, rfl, fun _ hp => .inl hp⟩

theorem Unpaused.send (h : s.Unpaused) {data : List UInt8} {results : List SendResult} :
    (s.send fd data value results).Unpaused := by
  rw [Sm.send]
  have hnote : (s.note fd fun b => b.send data (s.sendNow fd data results).2.1).Unpaused :=
    h.congr rfl rfl rfl fun _ hp => hp
  split
  · exact hnote.congr rfl rfl rfl fun _ hp => hp
  · exact hnote.enqueue
  · exact hnote.congr rfl rfl rfl fun _ hp => hp

/-- Both together. -/
structure Guarded (s : Sm) (again : Bool) : Prop where
  unpaused : s.Unpaused
  placed : s.Placed again

theorem Guarded.removeFd (h : s.Guarded again) (hno : ∀ fd n, s.phase ≠ .recv fd n) :
    (s.removeFd fd).Guarded again :=
  ⟨h.unpaused.removeFd, h.placed.within hno (within_removeFd s fd)⟩

theorem Unpaused.resend (h : s.Unpaused) {canRecv : Bool} {numLeft : Nat}
    {results : List SendResult} (hcurr : s.currRecvFd = 0)
    (hnext : canRecv = true → fd ≠ 0 ∧ ¬ s.Paused fd) :
    (s.resend fd canRecv numLeft results).Guarded again := by
  have hwill (s' : Sm) (hphase : s'.phase = .resent fd canRecv numLeft ∨
      s'.phase = .onSent fd canRecv numLeft) (hcurr' : s'.currRecvFd = 0)
      (hpaused : ∀ r, s'.Paused r → s.Paused r) : s'.Placed again := by
    refine placed_outside hcurr' ?_ fun fd' hread => ?_
    · rcases hphase with hphase | hphase <;> rw [hphase] <;> rfl
    · have hsame : canRecv = true ∧ fd' = fd := by
        cases canRecv with
        | false =>
          rcases hphase with hphase | hphase <;> rw [hphase] at hread <;> cases hread
        | true =>
          rcases hphase with hphase | hphase <;> rw [hphase] at hread <;> cases hread <;>
            exact ⟨rfl, rfl⟩
      obtain ⟨hcan, rfl⟩ := hsame
      exact ⟨(hnext hcan).1, fun hp => (hnext hcan).2 (hpaused _ hp)⟩
  rw [Sm.resend]
  split
  · exact ⟨h.enter _, hwill _ (.inl rfl) hcurr fun _ hp => hp⟩
  · next node nodes hqueue =>
      have hnote : ∀ sent, (s.note fd fun b => b.resend node.life sent).Unpaused :=
        fun sent => h.congr rfl rfl rfl fun _ hp => hp
      have hrest : ∀ sent rest r, ((s.note fd fun b => b.resend node.life sent).setQueue fd
          ({ node with rest := rest } :: nodes)).Paused r → s.Paused r := by
        intro sent rest r hp
        exact (paused_rest (s := s.note fd fun b => b.resend node.life sent) hqueue rest r).1 hp
      dsimp only
      split
      · refine Guarded.removeFd ⟨(hnote _).enter _, hwill _ (.inl rfl) hcurr fun _ hp => hp⟩ ?_
        exact fun fd n h => by cases h
      · exact ⟨h.congr rfl rfl rfl (hrest _ _), hwill _ (.inl rfl) hcurr (hrest _ _)⟩
      · exact ⟨h.congr rfl rfl rfl (hrest _ _), hwill _ (.inr rfl) hcurr (hrest _ _)⟩

theorem Placed.curr_eq_zero (h : s.Placed again) (hread : s.phase.reading = none) :
    s.currRecvFd = 0 := by
  by_contra h0
  rw [h.curr h0] at hread
  cases hread

theorem Guarded.scan {again' : Bool} (h : s.Guarded again) {numLeft : Nat} {sends : List SendResult}
    (hphase : s.phase.reading = none) : (s.scan fd numLeft sends).Guarded again' := by
  have hcurr := h.placed.curr_eq_zero hphase
  have hready : fd ∈ s.tmpRecvFds → fd ≠ 0 ∧ ¬ s.Paused fd := by
    intro hmem
    have hrecv := h.unpaused.tmp hmem
    refine ⟨?_, h.unpaused.free fd hrecv⟩
    rintro rfl
    exact h.unpaused.zero (h.unpaused.sub hrecv)
  have hscan (numLeft' : Nat) : (s.enter (.scan (fd + 1) numLeft')).Guarded again' :=
    ⟨h.unpaused.enter _, placed_outside hcurr rfl fun fd' hnext => by cases hnext⟩
  rw [Sm.scan]
  split_ifs with hover hnone hfail hserver hsend
  · exact ⟨h.unpaused.enter _, placed_outside hcurr rfl fun fd' hnext => by cases hnext⟩
  · exact hscan numLeft
  · exact (hscan (numLeft - 1)).removeFd fun fd n h => by cases h
  · exact ⟨h.unpaused.enter _, placed_outside hcurr rfl fun fd' hnext => by cases hnext⟩
  · exact h.unpaused.resend hcurr fun hdec => hready (of_decide_eq_true hdec)
  · refine ⟨h.unpaused.enter _, placed_outside hcurr rfl fun fd' hnext => ?_⟩
    cases hnext
    refine hready ?_
    by_contra hrecv
    exact hnone ⟨hsend, hrecv, hfail⟩

theorem Guarded.proceed {again' : Bool} (h : s.Guarded again) (hcalls : s.calls = []) {a : Answer}
    (hadds : ∀ fd ∈ s.adds (.go a), fd ≠ 0 ∧ s.fdToSendq.names fd = false)
    (hround : ∀ fd n, s.phase = .onRecv fd n → again' = true) : (s.proceed a).Guarded again' := by
  have hout (phase : Phase) (hread : s.phase.reading = none) (hphase : phase.reading = none)
      (hnext : phase.willRead = none) : (s.enter phase).Guarded again' := by
    refine ⟨h.unpaused.enter _, placed_outside (h.placed.curr_eq_zero hread) hphase ?_⟩
    intro fd' hwill
    rw [show phase.willRead = some fd' from hwill] at hnext
    cases hnext
  have hin (fd : Nat) (phase : Phase) (hread : s.phase.reading = some fd)
      (hphase : phase.reading = some fd) (hno : ∀ fd n, phase ≠ .recv fd n) :
      (s.enter phase).Guarded again' := by
    refine ⟨h.unpaused.enter _, placed_inside hphase (h.placed.reads fd hread) (fun h0 => ?_) hno⟩
    have hcurr := h.placed.curr h0
    rw [hread] at hcurr
    exact (Option.some.inj hcurr).symm
  rw [Sm.proceed]
  split
  case h_1 hphase =>
    have hread : s.phase.reading = none := by
      rw [hphase]
      rfl
    refine ⟨h.unpaused, placed_outside (h.placed.curr_eq_zero hread) hread fun fd' hnext => ?_⟩
    rw [hphase] at hnext
    cases hnext
  case h_2 hphase => exact h.scan (by rw [hphase]; rfl)
  case h_3 hphase =>
    have hread : s.phase.reading = none := by
      rw [hphase]
      rfl
    split
    · exact hout _ hread rfl rfl
    · exact hout _ hread rfl rfl
    · exact (hout _ hread rfl rfl).removeFd fun fd n h => by cases h
  case h_4 fd newFd numLeft hphase =>
    have hread : s.phase.reading = none := by
      rw [hphase]
      rfl
    split
    · next hok =>
        have hadd : (s.addFd newFd a.newValue false).2.Unpaused := by
          refine h.unpaused.addFd fun hall hvalue => hadds newFd ?_
          rw [adds, hcalls, hphase]
          exact if_pos ⟨hok, hall, hvalue⟩
        have hcurr := (within_addFd s newFd a.newValue false).curr
        rw [h.placed.curr_eq_zero hread] at hcurr
        dsimp only
        split
        · exact ⟨hadd.enter _, placed_outside hcurr rfl fun fd' hnext => by cases hnext⟩
        · exact ⟨hadd.enter _, placed_outside hcurr rfl fun fd' hnext => by cases hnext⟩
    · exact hout _ hread rfl rfl
  case h_5 hphase => exact hout _ (by rw [hphase]; rfl) rfl rfl
  case h_6 fd canRecv numLeft hphase =>
    have hcurr := h.placed.curr_eq_zero (by rw [hphase]; rfl)
    have hpop : (s.pop fd).currRecvFd = s.currRecvFd := by
      rw [Sm.pop]
      split <;> rfl
    refine h.unpaused.pop.resend (hpop.trans hcurr) fun hcan => ?_
    obtain ⟨h0, hfree⟩ := h.placed.next fd (by rw [hphase, hcan]; rfl)
    exact ⟨h0, fun hp => hfree (paused_pop hp)⟩
  case h_7 fd canRecv numLeft hphase =>
    split
    · next hcan =>
        obtain ⟨h0, hfree⟩ := h.placed.next fd (by rw [hphase, hcan]; rfl)
        refine ⟨h.unpaused.congr rfl rfl rfl fun _ hp => hp, ?_⟩
        refine ⟨fun _ => rfl, fun _ _ _ => hcalls, fun fd' hnext => (by cases hnext), ?_, ?_⟩
        · intro fd' hread
          cases hread
          exact h0
        · intro fd' n hrecv _
          cases hrecv
          exact hfree
    · exact hout _ (by rw [hphase]; rfl) rfl rfl
  case h_8 fd numLeft hphase =>
    have hread : s.phase.reading = some fd := by
      rw [hphase]
      rfl
    have hend := hin fd (.recvEnd fd numLeft) hread rfl fun fd n h => by cases h
    split
    · exact hin fd _ hread rfl fun fd n h => by cases h
    · exact hend.removeFd fun fd n h => by cases h
    · exact hend
    · exact hend.removeFd fun fd n h => by cases h
  case h_9 fd numLeft hphase =>
    have hread : s.phase.reading = some fd := by
      rw [hphase]
      rfl
    split
    · refine ⟨h.unpaused.enter _, fun h0 => ?_, fun _ _ _ => hcalls, fun _ h => (by cases h), ?_, ?_⟩
      · exact hread.symm.trans (h.placed.curr h0)
      · intro fd' hread'
        cases hread'
        exact h.placed.reads fd hread
      · intro fd' n _ hagain
        rw [hround fd numLeft hphase] at hagain
        cases hagain
    · exact (hin fd (.recvEnd fd numLeft) hread rfl fun fd n h => by cases h).removeFd
        fun fd n h => by cases h
  case h_10 fd numLeft hphase =>
    exact ⟨h.unpaused.congr rfl rfl rfl fun _ hp => hp,
      placed_outside rfl rfl fun fd' hnext => by cases hnext⟩

theorem Placed.calling (h : s.Placed again) (hcalling : s.calling = true) (fd n : Nat) :
    s.phase ≠ .recv fd n := by
  intro hphase
  rw [Sm.calling, h.quiet fd n hphase, hphase] at hcalling
  cases hcalling

end Sets

end Sm

namespace Watch

/-- What holds between any two steps. -/
def Sound (w : Watch) : Prop := w.sm.Guarded w.again

theorem sound_new : new.Sound := ⟨Sm.unpaused_new, Sm.placed_new⟩

variable {w : Watch}

theorem Sound.called (h : w.Sound) {s' : Sm} (hw : Sm.Within w.sm s')
    (hcalling : w.sm.calling = true) (hs : s'.Unpaused) : s'.Guarded w.again :=
  ⟨hs, h.placed.within (h.placed.calling hcalling) hw⟩

theorem Sound.step (h : w.Sound) {e : Sm.Event} (hwaits : w.Waits e) : (w.step e).Sound := by
  cases e with
  | addFd fd value isServer =>
    show (w.sm.step (.addFd fd value isServer)).Guarded w.again
    rw [Sm.step]
    split
    · next hcalling =>
        refine h.called (Sm.within_addFd _ _ _ _) hcalling (h.unpaused.addFd fun hall hvalue => ?_)
        exact hwaits.adds fd (if_pos ⟨hcalling, hall, hvalue⟩)
    · exact h
  | removeFd fd =>
    show (w.sm.step (.removeFd fd)).Guarded w.again
    rw [Sm.step]
    split
    · next hcalling => exact h.called (Sm.within_removeFd _ _) hcalling h.unpaused.removeFd
    · exact h
  | send fd data value results =>
    show (w.sm.step (.send fd data value results)).Guarded w.again
    rw [Sm.step]
    split
    · next hcalling => exact h.called (Sm.within_send _ _ _ _ _) hcalling h.unpaused.send
    · exact h
  | select recvReady sendReady failReady numReady =>
    show (w.sm.step (.select recvReady sendReady failReady numReady)).Guarded w.again
    rw [Sm.step]
    split
    · next hcalls hphase =>
        rw [Sm.select]
        split
        · exact h
        · have hcurr := h.placed.curr_eq_zero (by rw [hphase]; rfl)
          refine ⟨⟨h.unpaused.free, Finset.inter_subset_left, h.unpaused.sub, h.unpaused.zero⟩, ?_⟩
          refine Sm.placed_outside hcurr ?_ fun fd hnext => ?_
          · dsimp only
            split <;> rfl
          · dsimp only at hnext
            split at hnext <;> cases hnext
    · exact h
  | go a =>
    show (w.sm.go a).Guarded (w.rounds (.go a))
    cases hcalls : w.sm.calls with
    | cons call calls =>
      have hsame : w.rounds (.go a) = w.again := by
        simp only [rounds, hcalls]
      have hno (fd n : Nat) : w.sm.phase ≠ .recv fd n := by
        intro hphase
        rw [h.placed.quiet fd n hphase] at hcalls
        cases hcalls
      have hreturn : ({ w.sm with calls := calls } : Sm).Guarded w.again :=
        ⟨h.unpaused.congr rfl rfl rfl fun _ hp => hp,
          h.placed.within hno ⟨rfl, rfl, fun _ hp => .inl hp⟩⟩
      rw [hsame, Sm.go, hcalls]
      cases call with
      | sent fd value data => exact hreturn
      | closing fd value isServer =>
        refine ⟨hreturn.unpaused.closed, hreturn.placed.within hno ⟨rfl, rfl, fun r hp => ?_⟩⟩
        exact .inl ((Sm.paused_closed isServer r).1 hp).1
    | nil =>
      rw [Sm.go, hcalls]
      refine Sm.Guarded.proceed h hcalls hwaits.adds fun fd n hphase => ?_
      rw [rounds, hcalls, hphase]

theorem Sound.pressed (h : w.Sound) {e : Sm.Event} (hwaits : w.Waits e) : w.sm.Pressed e := by
  refine ⟨fun fd hinvokes => ?_, fun fd hdrains => ?_⟩
  · cases hagain : w.again with
    | true => exact hwaits.again hagain fd hinvokes
    | false =>
      obtain ⟨n, hphase⟩ : ∃ n, w.sm.phase = .recv fd n := by
        rw [Sm.invokes.eq_def, Option.mem_def] at hinvokes
        split at hinvokes
        · split at hinvokes
          · next hphase _ =>
              cases hinvokes
              exact ⟨_, hphase⟩
          · cases hinvokes
        · cases hinvokes
      have hfree := h.placed.first fd n hphase hagain
      rw [Sm.Paused, not_and, Bool.not_eq_true] at hfree
      exact hfree (h.placed.reads fd (by rw [hphase]; rfl))
  · rw [Sm.drains.eq_def, Option.mem_def] at hdrains
    split at hdrains
    · split at hdrains
      · next a _ _ fd' canRecv numLeft hcalls hphase =>
          split at hdrains
          · next node nodes hqueue =>
              split at hdrains
              · next hnames =>
                  cases hdrains
                  have hstep : w.sm.step (.go a) =
                      (w.sm.pop fd').resend fd' canRecv numLeft a.sends := by
                    rw [Sm.step, Sm.go, hcalls]
                    dsimp only
                    rw [Sm.proceed, hphase]
                  obtain ⟨hrecv, hall⟩ := Sm.resend_sets (w.sm.pop fd') fd' canRecv numLeft a.sends
                  rw [hstep, hrecv, hall]
                  exact h.unpaused.pop_recvFds hqueue hnames
              · cases hdrains
          · cases hdrains
      · cases hdrains
    · cases hdrains

/-- **Back-pressure.**  In a run in which `sm_recv` does not read on from an fd that its first
`on_recv` has paused, and an fd is neither 0 nor named when it is added, `on_recv` is called only
for fds that no queued send names, and an fd is read again after the last that names it
exactly if it is there. -/
theorem backPressure {es : List Sm.Event} (h : All Waits .new es) :
    All (fun w e => w.sm.Pressed e) .new es :=
  Along.imp (fun _ _ _ hw hwaits hstep => Except.ok.inj hstep ▸ hw.step hwaits)
    (fun _ _ hw hwaits => hw.pressed hwaits) h sound_new

instance (s : Sm) (e : Sm.Event) : Decidable (s.Pressed e) :=
  decidable_of_iff ((∀ fd ∈ s.invokes e, s.fdToSendq.names fd = false) ∧
    ∀ fd ∈ s.drains e, fd ∈ (s.step e).recvFds ↔ fd ∈ (s.step e).allFds)
    ⟨fun h => ⟨h.1, h.2⟩, fun h => ⟨h.1, h.2⟩⟩

instance (w : Watch) (e : Sm.Event) : Decidable (w.Waits e) :=
  decidable_of_iff ((w.again = true → ∀ fd ∈ w.sm.invokes e, w.sm.fdToSendq.names fd = false) ∧
    ∀ fd ∈ w.sm.adds e, fd ≠ 0 ∧ w.sm.fdToSendq.names fd = false)
    ⟨fun h => ⟨h.1, h.2⟩, fun h => ⟨h.1, h.2⟩⟩

/-- Bytes come from 5, and what is sent to 6 then blocks. -/
def blockedSend : List Sm.Event :=
  [Sm.Event.addFd 5 1 false, .addFd 6 2 false, .select {5} ∅ ∅ 1] ++ List.replicate 7 (Sm.Event.go Sm.quiet) ++
    [Sm.Event.go { Sm.quiet with recv := .received }, .send 6 [1, 2] 0 [.sent 1], .go Sm.quiet]

/-- No more bytes come from 5, until the second byte is sent and 5 is read again. -/
def drained : List Sm.Event :=
  blockedSend ++ List.replicate 3 (Sm.Event.go Sm.quiet) ++ [Sm.Event.select ∅ {6} ∅ 1] ++
    List.replicate 6 (Sm.Event.go Sm.quiet) ++
      [Sm.Event.go { Sm.quiet with sends := [.sent 1] }, .go Sm.quiet]

theorem backPressure_drained : All (fun w e => w.sm.Pressed e) .new drained :=
  backPressure (by decide +kernel)

/-- More bytes come from 5 while it is paused. -/
theorem backPressure_refuted : ¬ All (fun w e => w.sm.Pressed e) .new
    (blockedSend ++ [Sm.Event.go { Sm.quiet with recv := .received }]) := by
  decide +kernel

end Watch

end IDeviceStack.WebkitProxy
