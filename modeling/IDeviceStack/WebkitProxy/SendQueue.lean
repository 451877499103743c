/-
# `WebkitProxy.SendQueue` — what is sent on a connection

What was passed to `sm_send` since an fd was added is what was sent and what is queued, as
long as nothing is left of an earlier queue.  The bytes of a node that `sm_resend` works on are
sent before `head` is moved, and its callback runs before the node is taken off: both happen
between two steps or inside of one.

**Proved here.**  `sends_in_order`.
-/
import IDeviceStack.WebkitProxy.SocketManager

namespace IDeviceStack.WebkitProxy

open Function List

namespace Sm

/-! ## The bytes of a connection -/

/-- What was sent, and what is queued, is what was passed; unless a call failed. -/
def KeptAt (b : Book) (queued : List UInt8) : Prop :=
  b.live = true → b.failed = false → b.passed = b.sent ++ queued

/-- The fd whose first node is through, and not taken off its queue yet. -/
def sentOn : Phase → Option Nat
  | .onSent fd _ _ => some fd
  | _ => none

def Front (s : Sm) : Prop :=
  ∀ fd, sentOn s.phase = some fd → ∃ node nodes, s.queue fd = node :: nodes ∧ node.rest = []

structure InOrder (s : Sm) : Prop where
  live : ∀ fd, (s.book fd).live = true → fd ∈ s.allFds
  kept : ∀ fd, KeptAt (s.book fd) (s.queued fd)
  front : s.Front

theorem inOrder_new : InOrder new where
  live _ h := absurd h Bool.false_ne_true
  kept _ h := absurd h Bool.false_ne_true
  front _ h := nomatch h

section Bytes

variable {s s' : Sm} {fd : Nat}

theorem InOrder.congr (h : s.InOrder) (hall : s'.allFds = s.allFds)
    (htable : s'.fdToSendq = s.fdToSendq) (hbook : s'.book = s.book) (hfront : s'.Front) :
    s'.InOrder where
  live fd := by
    rw [hall, hbook]
    exact h.live fd
  kept fd := by
    rw [queued, queue, htable, hbook]
    exact h.kept fd
  front := hfront

theorem InOrder.enter (h : s.InOrder) {phase : Phase} (hphase : sentOn phase = none) :
    (s.enter phase).InOrder :=
  h.congr rfl rfl rfl fun _ heq => nomatch hphase.symm.trans heq

theorem InOrder.update (h : s.InOrder) (fd : Nat) (hall : ∀ fd' ≠ fd, fd' ∈ s.allFds → fd' ∈ s'.allFds)
    (hbook : ∀ fd' ≠ fd, s'.book fd' = s.book fd')
    (hqueue : ∀ fd' ≠ fd, s'.queued fd' = s.queued fd')
    (hlive : (s'.book fd).live = true → fd ∈ s'.allFds)
    (hkept : KeptAt (s'.book fd) (s'.queued fd)) (hfront : s'.Front) : s'.InOrder where
  live fd' := by
    by_cases hfd : fd' = fd
    · rw [hfd]
      exact hlive
    · rw [hbook fd' hfd]
      exact fun hl => hall fd' hfd (h.live fd' hl)
  kept fd' := by
    by_cases hfd : fd' = fd
    · rw [hfd]
      exact hkept
    · rw [hbook fd' hfd, hqueue fd' hfd]
      exact h.kept fd'
  front := hfront

theorem InOrder.addFd (h : s.InOrder) {value : Nat} {isServer : Bool}
    (hadds : fd ∉ s.allFds → s.fdToValue fd = 0 → s.queued fd = []) :
    (s.addFd fd value isServer).2.InOrder := by
  rw [Sm.addFd]
  split
  · exact h
  · next hfd =>
      dsimp only
      split
      · exact h.congr rfl rfl rfl h.front
      · next hvalue =>
          refine h.update fd (fun fd' _ hmem => Finset.mem_insert_of_mem hmem)
            (fun fd' hne => update_of_ne hne _ _) (fun fd' _ => rfl)
            (fun _ => Finset.mem_insert_self _ _) ?_ h.front
          intro _ _
          dsimp only
          rw [update_self]
          exact (hadds hfd (not_not.1 hvalue)).symm

theorem InOrder.dead (h : s.InOrder) (fd : Nat) (hall : ∀ fd' ≠ fd, fd' ∈ s.allFds → fd' ∈ s'.allFds)
    (hbook : ∀ fd' ≠ fd, s'.book fd' = s.book fd')
    (hqueue : ∀ fd' ≠ fd, s'.queued fd' = s.queued fd')
    (hdead : (s'.book fd).live = false) (hfront : s'.Front) : s'.InOrder :=
  h.update fd hall hbook hqueue (fun hlive => absurd (hdead.symm.trans hlive) Bool.false_ne_true)
    (fun hlive => absurd (hdead.symm.trans hlive) Bool.false_ne_true) hfront

theorem InOrder.removeFd (h : s.InOrder) : (s.removeFd fd).InOrder := by
  rw [Sm.removeFd]
  split
  · exact h
  · refine h.dead fd (fun _ _ hmem => hmem) (fun fd' hne => update_of_ne hne _ _)
      (fun _ _ => rfl) ?_ h.front
    dsimp only
    rw [update_self]
    rfl

theorem InOrder.noteRemoveFd (h : s.InOrder) {f : Book → Book}
    (hf : (f (s.book fd)).live = (s.book fd).live) {phase : Phase}
    (hphase : sentOn phase = none) :
    (((s.note fd f).enter phase).removeFd fd).InOrder := by
  have hbook : ∀ fd' ≠ fd, (s.note fd f).book fd' = s.book fd' :=
    fun fd' hne => update_of_ne hne _ _
  have hfront : ((s.note fd f).enter phase).Front :=
    fun _ heq => nomatch hphase.symm.trans heq
  rw [Sm.removeFd]
  split
  · next hfd =>
      refine h.dead fd (fun _ _ hmem => hmem) hbook (fun _ _ => rfl) ?_ hfront
      show (Function.update s.book fd (f (s.book fd)) fd).live = false
      rw [Function.update_self, hf]
      exact Bool.eq_false_iff.2 fun hlive => hfd (h.live fd hlive)
  · refine h.dead fd (fun _ _ hmem => hmem)
      (fun fd' hne => (update_of_ne hne _ _).trans (hbook fd' hne)) (fun _ _ => rfl) ?_
      hfront
    dsimp only
    rw [update_self]
    rfl

theorem InOrder.closed (h : s.InOrder) {isServer : Bool} : (s.closed fd isServer).InOrder := by
  have hget : ∀ fd', (s.closed fd isServer).queue fd' =
      (s.queue fd').map (SendqTable.unname fd) := fun fd' => s.fdToSendq.get_forget fd fd'
  have hqueued : ∀ fd', (s.closed fd isServer).queued fd' = s.queued fd' := by
    intro fd'
    rw [queued, hget, flatMap_map, queued]
    exact flatMap_congr fun node _ => unname_rest fd node
  refine h.dead fd (fun fd' hne hmem => Finset.mem_erase.2 ⟨hne, hmem⟩)
    (fun fd' hne => Function.update_of_ne hne _ _) (fun fd' _ => hqueued fd') ?_ ?_
  · show (Function.update s.book fd (s.book fd).remove fd).live = false
    rw [Function.update_self]
    rfl
  · intro fd' hphase
    obtain ⟨node, nodes, hqueue, hrest⟩ := h.front fd' hphase
    refine ⟨SendqTable.unname fd node, nodes.map (SendqTable.unname fd), ?_, ?_⟩
    · rw [hget, hqueue, map_cons]
    · rw [unname_rest, hrest]

theorem InOrder.send (h : s.InOrder) {data : List UInt8} {value : Nat}
    {results : List SendResult} : (s.send fd data value results).InOrder := by
  have hsplit : data = (s.sendNow fd data results).2.1 ++ (s.sendNow fd data results).2.2 ∧
      ((s.sendNow fd data results).1 = .done → (s.sendNow fd data results).2.2 = []) := by
    rw [sendNow]
    split
    · exact sendLoop_split data results
    · exact ⟨rfl, fun hdone => nomatch hdone⟩
  -- Either nothing is queued, or nothing is sent at once.
  have hcomm : (s.sendNow fd data results).2.1 ++ s.queued fd =
      s.queued fd ++ (s.sendNow fd data results).2.1 := by
    rw [sendNow]
    split
    · next hnil => rw [queued, hnil, flatMap_nil, append_nil, nil_append]
    · rw [nil_append, append_nil]
  obtain ⟨hdata, hdone⟩ := hsplit
  have hother : ∀ f : Book → Book, ∀ fd' ≠ fd, (s.note fd f).book fd' = s.book fd' :=
    fun f fd' hne => update_of_ne hne _ _
  have hself : ∀ f : Book → Book, (s.note fd f).book fd = f (s.book fd) :=
    fun f => update_self _ _ _
  have hlive : (s.book fd).live = true → fd ∈ s.allFds := h.live fd
  have hkept := h.kept fd
  rw [Sm.send]
  generalize s.sendNow fd data results = r at *
  obtain ⟨outcome, sent, rest⟩ := r
  dsimp only at hdata hdone hcomm ⊢
  have hbook : (s.note fd fun b => b.send data sent).book fd = (s.book fd).send data sent :=
    hself _
  have hpassed : (s.book fd).live = true → (s.book fd).failed = false →
      (s.book fd).passed ++ data = (s.book fd).sent ++ sent ++ (s.queued fd ++ rest) := by
    intro hl hf
    rw [hkept hl hf, hdata, append_assoc, append_assoc,
      ← append_assoc (s.queued fd), ← hcomm, append_assoc]
  cases outcome with
  | done =>
    dsimp only
    refine h.update fd (fun _ _ hmem => hmem) (hother fun b => b.send data sent) (fun _ _ => rfl)
      ?_ ?_ h.front
    · dsimp only
      rw [hbook]
      exact hlive
    · dsimp only
      rw [hbook]
      intro hl hf
      exact (hpassed hl hf).trans (by rw [hdone rfl, append_nil]; rfl)
  | blocked =>
    have hget : ∀ fd', ((s.note fd fun b => b.send data sent).enqueue fd value rest).queue fd' =
        if fd' = fd then s.queue fd ++ [⟨value, s.currRecvFd, rest, rest,
          ((s.book fd).send data sent).life⟩] else s.queue fd' := by
      intro fd'
      rw [← hbook]
      exact s.fdToSendq.get_put fd _ fd'
    refine h.update fd (fun _ _ hmem => hmem) (hother fun b => b.send data sent)
      ?_ ?_ ?_ ?_
    · intro fd' hne
      rw [queued, hget, if_neg hne, queued]
    · intro hl
      have hl' : ((s.note fd fun b => b.send data sent).book fd).live = true := hl
      rw [hbook] at hl'
      exact hlive hl'
    · show KeptAt ((s.note fd fun b => b.send data sent).book fd) _
      rw [hbook, queued, hget, if_pos rfl, flatMap_append, flatMap_singleton]
      exact hpassed
    · intro fd' hphase
      obtain ⟨node, nodes, hqueue, hrest⟩ := h.front fd' hphase
      rw [hget]
      split
      · next hfd =>
          rw [← hfd, hqueue]
          exact ⟨node, _, cons_append, hrest⟩
      · exact ⟨node, nodes, hqueue, hrest⟩
  | failed =>
    dsimp only
    refine h.update fd (fun _ _ hmem => hmem) ?_ (fun _ _ => rfl) ?_ ?_ h.front
    · exact fun fd' hne => (update_of_ne hne _ _).trans (hother _ fd' hne)
    · intro hl
      rw [note] at hl
      dsimp only at hl
      rw [update_self, hbook] at hl
      exact hlive hl
    · intro _ hf
      rw [note] at hf
      dsimp only at hf
      rw [update_self] at hf
      exact nomatch hf

theorem InOrder.pop (h : s.InOrder) {canRecv : Bool} {numLeft : Nat}
    (hphase : s.phase = .onSent fd canRecv numLeft) : ((s.pop fd).enter .idle).InOrder := by
  obtain ⟨node, nodes, hqueue, hrest⟩ := h.front fd (by rw [hphase]; rfl)
  have hpop : ∀ fd', (s.pop fd).queue fd' = if fd' = fd then nodes else s.queue fd' := by
    intro fd'
    rw [Sm.pop, hqueue]
    exact s.fdToSendq.get_put fd nodes fd'
  have hsame : (s.pop fd).book = s.book ∧ (s.pop fd).allFds = s.allFds := by
    rw [Sm.pop, hqueue]
    exact ⟨rfl, rfl⟩
  have hqueued : (s.pop fd).queued fd = s.queued fd := by
    rw [queued, hpop, if_pos rfl, queued, hqueue, flatMap_cons, hrest, nil_append]
  refine h.update fd ?_ ?_ ?_ ?_ ?_ fun _ heq => nomatch heq
  · intro fd' _ hmem
    exact hsame.2 ▸ hmem
  · intro fd' _
    exact congrFun hsame.1 fd'
  · intro fd' hne
    show (s.pop fd).queued fd' = _
    rw [queued, hpop, if_neg hne, queued]
  · show ((s.pop fd).book fd).live = true → fd ∈ (s.pop fd).allFds
    rw [hsame.1, hsame.2]
    exact h.live fd
  · show KeptAt ((s.pop fd).book fd) ((s.pop fd).queued fd)
    rw [hsame.1, hqueued]
    exact h.kept fd

theorem InOrder.resend (h : (s.enter .idle).InOrder) {canRecv : Bool} {numLeft : Nat}
    {results : List SendResult} : (s.resend fd canRecv numLeft results).InOrder := by
  rw [Sm.resend]
  split
  · have henter : ((s.enter .idle).enter (.resent fd canRecv numLeft)).InOrder := h.enter rfl
    exact henter
  · next node nodes hqueue =>
      obtain ⟨hsplit, hdone⟩ := resendLoop_split node.rest results
      dsimp only
      generalize resendLoop node.rest results = r at *
      obtain ⟨outcome, sent, rest⟩ := r
      dsimp only at hsplit hdone ⊢
      have hsend : ∀ phase : Phase, (((s.note fd fun b => b.resend node.life sent).setQueue fd
          ({ node with rest := rest } :: nodes)).enter phase).Front →
          (((s.note fd fun b => b.resend node.life sent).setQueue fd
            ({ node with rest := rest } :: nodes)).enter phase).InOrder := by
        intro phase hfront
        have hget : ∀ fd', (((s.note fd fun b => b.resend node.life sent).setQueue fd
            ({ node with rest := rest } :: nodes)).enter phase).queue fd' =
            if fd' = fd then { node with rest := rest } :: nodes else s.queue fd' :=
          s.fdToSendq.get_put fd _
        refine h.update fd (fun _ _ hmem => hmem)
          (fun fd' hne => update_of_ne hne _ _) ?_ ?_ ?_ hfront
        · intro fd' hne
          rw [queued, hget, if_neg hne]
          rfl
        · show (Function.update s.book fd ((s.book fd).resend node.life sent) fd).live = true → _
          rw [Function.update_self]
          exact h.live fd
        · show KeptAt (Function.update s.book fd ((s.book fd).resend node.life sent) fd) _
          rw [Function.update_self, queued, hget, if_pos rfl, List.flatMap_cons]
          intro hl hf
          have hkept : (s.book fd).passed = (s.book fd).sent ++ s.queued fd := h.kept fd hl hf
          rw [queued, hqueue, flatMap_cons, hsplit] at hkept
          show (s.book fd).passed = (s.book fd).sent ++ sent ++ _
          rw [hkept, append_assoc, append_assoc]
      cases outcome with
      | failed =>
        have hremove : ((((s.enter .idle).note fd fun b => b.resend node.life sent).enter
            (.resent fd canRecv numLeft)).removeFd fd).InOrder := h.noteRemoveFd rfl rfl
        exact hremove
      | blocked => exact hsend _ fun _ heq => nomatch heq
      | done =>
        refine hsend _ fun fd' heq => ?_
        obtain rfl : fd = fd' := Option.some.inj heq
        refine ⟨{ node with rest := rest }, nodes, ?_, hdone rfl⟩
        exact s.fdToSendq.get_put_self fd _

theorem InOrder.scan (h : s.InOrder) {numLeft : Nat} {sends : List SendResult} :
    (s.scan fd numLeft sends).InOrder := by
  have hidle : (s.enter .idle).InOrder := h.enter rfl
  rw [Sm.scan]
  split_ifs
  · exact hidle
  · exact h.enter rfl
  · exact (h.enter rfl).removeFd
  · exact h.enter rfl
  · exact hidle.resend
  · exact h.enter rfl

theorem InOrder.proceed (h : s.InOrder) (hcalls : s.calls = []) {a : Answer}
    (hadds : s.AddsEmpty (.go a)) : (s.proceed a).InOrder := by
  rw [Sm.proceed]
  split
  case h_1 => exact h
  case h_2 => exact h.scan
  case h_3 =>
    split
    · exact h.enter rfl
    · exact h.enter rfl
    · exact (h.enter rfl).removeFd
  case h_4 fd newFd numLeft hphase =>
    split
    · next hok =>
        have hadd : (s.addFd newFd a.newValue false).2.InOrder := by
          refine h.addFd fun hall hvalue => hadds newFd ?_
          rw [adds, hcalls, hphase]
          exact if_pos ⟨hok, hall, hvalue⟩
        dsimp only
        split
        · exact hadd.enter rfl
        · exact hadd.enter rfl
    · exact h.enter rfl
  case h_5 => exact h.enter rfl
  case h_6 hphase => exact (h.pop hphase).resend
  case h_7 =>
    split
    · exact h.congr rfl rfl rfl fun _ heq => nomatch heq
    · exact h.enter rfl
  case h_8 =>
    split
    · exact h.enter rfl
    · exact (h.enter rfl).removeFd
    · exact h.enter rfl
    · exact (h.enter rfl).removeFd
  case h_9 =>
    split
    · exact h.enter rfl
    · exact (h.enter rfl).removeFd
  case h_10 => exact h.congr rfl rfl rfl fun _ heq => nomatch heq

theorem InOrder.step (h : s.InOrder) {e : Event} (hadds : s.AddsEmpty e) : (s.step e).InOrder := by
  cases e with
  | addFd fd value isServer =>
    rw [Sm.step]
    split
    · next hcalling =>
        exact h.addFd fun hall hvalue => hadds fd (if_pos ⟨hcalling, hall, hvalue⟩)
    · exact h
  | removeFd fd =>
    rw [Sm.step]
    split
    · exact h.removeFd
    · exact h
  | send fd data value results =>
    rw [Sm.step]
    split
    · exact h.send
    · exact h
  | select recvReady sendReady failReady numReady =>
    rw [Sm.step]
    split
    · rw [Sm.select]
      split
      · exact h
      · refine h.congr rfl rfl rfl fun _ heq => ?_
        dsimp only at heq
        split at heq
        · exact nomatch heq
        · exact nomatch heq
    · exact h
  | go a =>
    rw [Sm.step, Sm.go]
    split
    · exact h.congr rfl rfl rfl h.front
    · next fd value isServer calls hcalls =>
        have hreturn : ({ s with calls := calls } : Sm).InOrder := h.congr rfl rfl rfl h.front
        exact hreturn.closed
    · next hcalls => exact h.proceed hcalls hadds

end Bytes

/-- **Queued sends.**  In a run in which nothing is left of the queue of an fd that is added, the
bytes that were sent on a live fd are, at every moment, the front of what was passed to
`sm_send`, and those that are queued are the rest. -/
theorem sends_in_order {s : Sm} (hrun : Reaches AddsEmpty s) {fd : Nat}
    (hlive : (s.book fd).live = true) (hfailed : (s.book fd).failed = false) :
    (s.book fd).passed = (s.book fd).sent ++ s.queued fd := by
  have horder : s.InOrder := by
    clear hlive hfailed
    induction hrun with
    | new => exact inOrder_new
    | step _ hadds ih => exact ih.step hadds
  exact horder.kept fd hlive hfailed

/-- One of two bytes is sent, and the other is queued. -/
theorem sends_in_order_partly :
    let s := run [.addFd 5 1 false, .send 5 [1, 2] 0 [.sent 1, .blocked]]
    (s.book 5).passed = (s.book 5).sent ++ s.queued 5 := by
  have hadd : new.AddsEmpty (.addFd 5 1 false) := fun _ _ => rfl
  have hsend : (run [.addFd 5 1 false]).AddsEmpty (.send 5 [1, 2] 0 [.sent 1, .blocked]) :=
    fun _ h => nomatch h
  have hrun : Reaches AddsEmpty (run [.addFd 5 1 false, .send 5 [1, 2] 0 [.sent 1, .blocked]]) :=
    .step (.step .new hadd) hsend
  exact sends_in_order hrun (by decide +kernel) (by decide +kernel)

/-- Two bytes are queued when a connection is closed, and another has its number: nothing was
passed to it. -/
theorem sends_in_order_refuted :
    ¬ ∀ s : Sm, Reaches (fun _ _ => True) s → ∀ fd, (s.book fd).live = true →
      (s.book fd).failed = false → (s.book fd).passed = (s.book fd).sent ++ s.queued fd := by
  intro h
  have hkept := h _ (reaches_run [.addFd 5 1 false, .send 5 [1, 2] 0 [.blocked], .removeFd 5,
    .go quiet, .addFd 5 1 false]) 5 (by decide +kernel) (by decide +kernel)
  revert hkept
  decide +kernel

end Sm

end IDeviceStack.WebkitProxy
