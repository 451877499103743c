/-
# `WebkitProxy.FdSets` — the sets of the socket manager

The comments of `struct sm_private` say what is in `send_fds` and `recv_fds`: the fds with a
queue, and those that no queued send names.  Each operation keeps that, unless `sm_remove_fd`
comes back from `on_close` with a queue, a send blocks on an fd that is not there, or an fd is
added that a queued send names (`Tidy`).

**Proved here.**  `bookkept`.
-/
import IDeviceStack.WebkitProxy.SocketManager

namespace IDeviceStack.WebkitProxy

open List

namespace Sm

/-! ## The bookkeeping -/

/-- What the comments of `struct sm_private` say, and no byte on a foreign connection. -/
structure Bookkept (s : Sm) : Prop where
  sendFds : ∀ fd, fd ∈ s.sendFds ↔ s.queue fd ≠ []
  recvFds : ∀ fd, fd ∈ s.recvFds ↔ fd ∈ s.allFds ∧ ¬ s.Paused fd
  subset : s.sendFds ⊆ s.allFds ∧ s.recvFds ⊆ s.allFds
  foreign : ∀ fd, (s.book fd).foreign = []

/-- With the connections that the nodes were queued for. -/
structure Sound (s : Sm) : Prop extends Bookkept s where
  lives : ∀ fd, ∀ node ∈ s.queue fd, node.life = (s.book fd).life

theorem sound_new : Sound new where
  sendFds _ := ⟨fun h => absurd h (Finset.notMem_empty _), fun h => absurd rfl h⟩
  recvFds _ := ⟨fun h => absurd h (Finset.notMem_empty _),
    fun h => absurd h.1 (Finset.notMem_empty _)⟩
  subset := ⟨Finset.Subset.refl _, Finset.Subset.refl _⟩
  foreign _ := rfl
  lives _ node h := absurd h (not_mem_nil (a := node))

section Steps

variable {s s' : Sm} {fd : Nat}

theorem Sound.congr (h : s.Sound) (hall : s'.allFds = s.allFds) (hsend : s'.sendFds = s.sendFds)
    (hrecv : s'.recvFds = s.recvFds) (htable : s'.fdToSendq = s.fdToSendq)
    (hbook : ∀ fd, (s'.book fd).life = (s.book fd).life ∧
      (s'.book fd).foreign = (s.book fd).foreign) : s'.Sound where
  sendFds fd := by
    rw [hsend, queue, htable]
    exact h.sendFds fd
  recvFds fd := by
    rw [hrecv, hall, Paused, htable]
    exact h.recvFds fd
  subset := by
    rw [hsend, hrecv, hall]
    exact h.subset
  foreign fd := (hbook fd).2.trans (h.foreign fd)
  lives fd node hnode := by
    rw [queue, htable] at hnode
    exact (h.lives fd node hnode).trans (hbook fd).1.symm

theorem book_note {f : Book → Book} (hf : (f (s.book fd)).life = (s.book fd).life ∧
    (f (s.book fd)).foreign = (s.book fd).foreign) (fd' : Nat) :
    ((s.note fd f).book fd').life = (s.book fd').life ∧
      ((s.note fd f).book fd').foreign = (s.book fd').foreign := by
  rw [note]
  dsimp only
  by_cases hfd : fd' = fd
  · rw [hfd, Function.update_self]
    exact hf
  · rw [Function.update_of_ne hfd]
    exact ⟨rfl, rfl⟩

theorem Sound.note (h : s.Sound) {f : Book → Book} (hf : (f (s.book fd)).life = (s.book fd).life ∧
    (f (s.book fd)).foreign = (s.book fd).foreign) : (s.note fd f).Sound :=
  h.congr rfl rfl rfl rfl (book_note hf)

theorem paused_iff {r : Nat} (fd : Nat) :
    s.Paused r ↔ r ≠ 0 ∧ ((∃ node ∈ s.queue fd, node.recvFd = r) ∨
      ∃ fd', fd' ≠ fd ∧ ∃ node ∈ s.queue fd', node.recvFd = r) := by
  rw [Paused, SendqTable.names_iff]
  refine and_congr_right fun _ => ?_
  constructor
  · rintro ⟨fd', node, hnode, heq⟩
    by_cases hfd : fd' = fd
    · exact .inl ⟨node, hfd ▸ hnode, heq⟩
    · exact .inr ⟨fd', hfd, node, hnode, heq⟩
  · rintro (⟨node, hnode, heq⟩ | ⟨fd', -, node, hnode, heq⟩)
    · exact ⟨fd, node, hnode, heq⟩
    · exact ⟨fd', node, hnode, heq⟩

theorem paused_put {nodes : List Sendq} {r : Nat}
    (htable : s'.fdToSendq = s.fdToSendq.put fd nodes) :
    s'.Paused r ↔ r ≠ 0 ∧ ((∃ node ∈ nodes, node.recvFd = r) ∨
      ∃ fd', fd' ≠ fd ∧ ∃ node ∈ s.queue fd', node.recvFd = r) := by
  have hqueue : s'.queue fd = nodes := by rw [queue, htable, SendqTable.get_put_self]
  rw [paused_iff fd, hqueue]
  refine and_congr_right fun _ =>
    or_congr_right (exists_congr fun fd' => and_congr_right fun hne => ?_)
  rw [queue, queue, htable, SendqTable.get_put_ne _ hne]

theorem paused_setQueue {nodes : List Sendq}
    (hnames : ∀ r, (∃ node ∈ nodes, node.recvFd = r) ↔ ∃ node ∈ s.queue fd, node.recvFd = r)
    (r : Nat) : (s.setQueue fd nodes).Paused r ↔ s.Paused r := by
  rw [paused_put (s := s) rfl, paused_iff fd, hnames]

theorem paused_enqueue (value : Nat) (rest : List UInt8) (r : Nat) :
    (s.enqueue fd value rest).Paused r ↔
      s.Paused r ∨ s.currRecvFd ≠ 0 ∧ r = s.currRecvFd := by
  rw [paused_put (s := s) rfl, paused_iff fd]
  constructor
  · rintro ⟨hr0, ⟨node, hnode, heq⟩ | hother⟩
    · rcases mem_append.1 hnode with hnode | hnode
      · exact .inl ⟨hr0, .inl ⟨node, hnode, heq⟩⟩
      · obtain rfl := mem_singleton.1 hnode
        obtain rfl : s.currRecvFd = r := heq
        exact .inr ⟨hr0, rfl⟩
    · exact .inl ⟨hr0, .inr hother⟩
  · rintro (⟨hr0, ⟨node, hnode, heq⟩ | hother⟩ | ⟨hr0, rfl⟩)
    · exact ⟨hr0, .inl ⟨node, mem_append_left _ hnode, heq⟩⟩
    · exact ⟨hr0, .inr hother⟩
    · exact ⟨hr0, .inl ⟨_, mem_append_right _ mem_cons_self, rfl⟩⟩

theorem paused_closed (isServer : Bool) (r : Nat) :
    (s.closed fd isServer).Paused r ↔ s.Paused r ∧ r ≠ fd := by
  rw [Paused, Paused, SendqTable.names_iff, SendqTable.names_iff, and_assoc]
  refine and_congr_right fun hr0 => ?_
  constructor
  · rintro ⟨fd', node, hnode, heq⟩
    rw [show (s.closed fd isServer).fdToSendq = s.fdToSendq.forget fd from rfl,
      SendqTable.get_forget] at hnode
    obtain ⟨node, hmem, rfl⟩ := mem_map.1 hnode
    obtain ⟨heq, hne⟩ := (unname_recvFd hr0 node).1 heq
    exact ⟨⟨fd', node, hmem, heq⟩, hne⟩
  · rintro ⟨⟨fd', node, hnode, heq⟩, hne⟩
    refine ⟨fd', SendqTable.unname fd node, ?_, (unname_recvFd hr0 node).2 ⟨heq, hne⟩⟩
    rw [show (s.closed fd isServer).fdToSendq = s.fdToSendq.forget fd from rfl,
      SendqTable.get_forget]
    exact mem_map_of_mem hnode

theorem Sound.requeue (h : s.Sound) {nodes : List Sendq} (hnil : nodes = [] ↔ s.queue fd = [])
    (hnames : ∀ r, (∃ node ∈ nodes, node.recvFd = r) ↔ ∃ node ∈ s.queue fd, node.recvFd = r)
    (hlives : ∀ node ∈ nodes, node.life = (s.book fd).life) :
    (s.setQueue fd nodes).Sound where
  sendFds fd' := by
    rw [queue, setQueue, SendqTable.get_put]
    split
    · next hfd =>
        rw [hfd, ne_eq, hnil]
        exact h.sendFds fd
    · exact h.sendFds fd'
  recvFds r := by
    exact (h.recvFds r).trans (and_congr_right fun _ => not_congr (paused_setQueue hnames r).symm)
  subset := h.subset
  foreign := h.foreign
  lives fd' node hnode := by
    rw [queue, setQueue, SendqTable.get_put] at hnode
    split at hnode
    · next hfd =>
        rw [hfd]
        exact hlives node hnode
    · exact h.lives fd' node hnode

theorem Sound.enter (h : s.Sound) (phase : Phase) : (s.enter phase).Sound :=
  h.congr rfl rfl rfl rfl fun _ => ⟨rfl, rfl⟩

theorem Sound.addFd (h : s.Sound) {value : Nat} {isServer : Bool}
    (hadds : fd ∉ s.allFds → s.fdToValue fd = 0 → ¬ s.Paused fd) :
    (s.addFd fd value isServer).2.Sound := by
  rw [Sm.addFd]
  split
  · exact h
  · next hfd =>
      dsimp only
      split
      · exact h.congr rfl rfl rfl rfl fun _ => ⟨rfl, rfl⟩
      · next hvalue =>
          have hsend : fd ∉ s.sendFds := fun hmem => hfd (h.subset.1 hmem)
          have hqueue : s.queue fd = [] := by
            by_contra hne
            exact hsend ((h.sendFds fd).2 hne)
          have hpaused := hadds hfd (not_not.1 hvalue)
          have hrecv : ∀ r, r ∈ insert fd s.recvFds ↔ r ∈ insert fd s.allFds ∧ ¬ s.Paused r := by
            intro r
            rw [Finset.mem_insert, Finset.mem_insert, h.recvFds]
            constructor
            · rintro (rfl | ⟨hall, hnot⟩)
              · exact ⟨.inl rfl, hpaused⟩
              · exact ⟨.inr hall, hnot⟩
            · rintro ⟨rfl | hall, hnot⟩
              · exact .inl rfl
              · exact .inr ⟨hall, hnot⟩
          refine ⟨⟨?_, hrecv, ⟨?_, fun r hr => ((hrecv r).1 hr).1⟩, ?_⟩, ?_⟩
          · intro fd'
            rw [Finset.erase_eq_of_notMem hsend]
            exact h.sendFds fd'
          · intro r hr
            exact Finset.mem_insert_of_mem (h.subset.1 (Finset.mem_of_mem_erase hr))
          · intro fd'
            dsimp only
            rw [Function.update_apply]
            split
            · exact h.foreign fd
            · exact h.foreign fd'
          · intro fd' node hnode
            have hne : fd' ≠ fd := by
              rintro rfl
              have hmem : node ∈ s.queue fd' := hnode
              rw [hqueue] at hmem
              exact absurd hmem not_mem_nil
            dsimp only
            rw [Function.update_of_ne hne]
            exact h.lives fd' node hnode

theorem Sound.removeFd (h : s.Sound) : (s.removeFd fd).Sound := by
  rw [Sm.removeFd]
  split
  · exact h
  · exact h.congr rfl rfl rfl rfl (book_note (f := Book.remove) ⟨rfl, rfl⟩)

theorem Sound.closed (h : s.Sound) {isServer : Bool} (hqueue : s.queue fd = []) :
    (s.closed fd isServer).Sound := by
  have hget : ∀ fd', (s.closed fd isServer).queue fd' =
      (s.queue fd').map (SendqTable.unname fd) := fun fd' => s.fdToSendq.get_forget fd fd'
  have hrecv : ∀ r, r ∈ s.recvFds.erase fd ↔
      r ∈ s.allFds.erase fd ∧ ¬ (s.closed fd isServer).Paused r := by
    intro r
    rw [Finset.mem_erase, Finset.mem_erase, h.recvFds, and_assoc]
    refine and_congr_right fun hr => ?_
    rw [paused_closed, and_iff_left hr]
  refine ⟨⟨?_, hrecv, ⟨?_, fun r hr => ((hrecv r).1 hr).1⟩, ?_⟩, ?_⟩
  · intro fd'
    rw [hget, ne_eq, map_eq_nil_iff]
    show fd' ∈ s.sendFds.erase fd ↔ _
    rw [Finset.mem_erase, h.sendFds]
    refine ⟨fun hmem => hmem.2, fun hne => ⟨?_, hne⟩⟩
    rintro rfl
    exact hne hqueue
  · exact Finset.erase_subset_erase fd h.subset.1
  · intro fd'
    exact ((book_note (f := Book.remove) ⟨rfl, rfl⟩ fd').2).trans
      (h.foreign fd')
  · intro fd' node hnode
    rw [hget] at hnode
    obtain ⟨node, hmem, rfl⟩ := mem_map.1 hnode
    rw [unname_life, h.lives fd' node hmem]
    exact (book_note (f := Book.remove) ⟨rfl, rfl⟩ fd').1.symm

theorem Sound.enqueue (h : s.Sound) {value : Nat} {rest : List UInt8} (hfd : fd ∈ s.allFds) :
    (s.enqueue fd value rest).Sound := by
  have hrecv : ∀ r, r ∈ (s.enqueue fd value rest).recvFds ↔
      r ∈ s.allFds ∧ ¬ (s.enqueue fd value rest).Paused r := by
    intro r
    have hpause : r ∈ (s.enqueue fd value rest).recvFds ↔
        r ∈ s.recvFds ∧ ¬ (s.currRecvFd ≠ 0 ∧ r = s.currRecvFd) := by
      rw [Sm.enqueue]
      dsimp only
      by_cases hnamed : s.currRecvFd ≠ 0 ∧ s.currRecvFd ∈ s.recvFds
      · rw [decide_eq_true hnamed, if_pos rfl, Finset.mem_erase, and_comm]
        refine and_congr_right fun _ => ?_
        rw [not_and]
        exact ⟨fun hne _ => hne, fun hne => hne hnamed.1⟩
      · rw [decide_eq_false hnamed, if_neg Bool.false_ne_true]
        refine ⟨fun hr => ⟨hr, ?_⟩, fun hr => hr.1⟩
        rintro ⟨h0, rfl⟩
        exact hnamed ⟨h0, hr⟩
    rw [hpause, h.recvFds, paused_enqueue, not_or, and_assoc]
  refine ⟨⟨?_, hrecv, ⟨?_, fun r hr => ((hrecv r).1 hr).1⟩, h.foreign⟩, ?_⟩
  · intro fd'
    rw [queue, Sm.enqueue]
    dsimp only
    rw [SendqTable.get_put]
    by_cases hfd' : fd' = fd
    · subst hfd'
      rw [if_pos rfl]
      refine ⟨fun _ => append_ne_nil_of_right_ne_nil _ (cons_ne_nil _ _), fun _ => ?_⟩
      split
      · exact Finset.mem_insert_self _ _
      · next hne => exact (h.sendFds fd').2 hne
    · rw [if_neg hfd']
      refine Iff.trans ?_ (h.sendFds fd')
      split
      · rw [Finset.mem_insert, or_iff_right hfd']
      · exact Iff.rfl
  · rw [Sm.enqueue]
    dsimp only
    split
    · exact Finset.insert_subset hfd h.subset.1
    · exact h.subset.1
  · intro fd' node hnode
    rw [queue, Sm.enqueue] at hnode
    dsimp only at hnode
    rw [SendqTable.get_put] at hnode
    split at hnode
    · next hfd' =>
        subst hfd'
        rcases mem_append.1 hnode with hnode | hnode
        · exact h.lives fd' node hnode
        · obtain rfl := mem_singleton.1 hnode
          rfl
    · exact h.lives fd' node hnode

theorem Sound.pop (h : s.Sound) : (s.pop fd).Sound := by
  rw [Sm.pop]
  split
  · exact h
  · next node nodes hqueue =>
      have hpaused : ∀ r, s.Paused r ↔ (s.setQueue fd nodes).Paused r ∨ r ≠ 0 ∧ node.recvFd = r := by
        intro r
        rw [@paused_put s (s.setQueue fd nodes) fd nodes r rfl, paused_iff fd, hqueue]
        simp only [mem_cons, exists_eq_or_imp]
        rw [← and_or_left]
        refine and_congr_right fun _ => ?_
        rw [or_assoc, or_comm]
      have hnames : node.recvFd ≠ 0 → ((s.setQueue fd nodes).fdToSendq.names node.recvFd = false ↔
          ¬ (s.setQueue fd nodes).Paused node.recvFd) := by
        intro h0
        rw [Paused, not_and, Bool.not_eq_true]
        exact ⟨fun hfalse _ => hfalse, fun hfalse => hfalse h0⟩
      dsimp only
      generalize hrecvFds : (if node.recvFd ≠ 0 ∧ node.recvFd ∈ s.allFds ∧
          (s.setQueue fd nodes).fdToSendq.names node.recvFd = false then
        insert node.recvFd s.recvFds else s.recvFds) = recvFds
      have hrecv : ∀ r, r ∈ recvFds ↔ r ∈ s.allFds ∧ ¬ (s.setQueue fd nodes).Paused r := by
        intro r
        have hold := h.recvFds r
        rw [hpaused, not_or] at hold
        rw [← hrecvFds]
        split
        · next hagain =>
            obtain ⟨h0, hall, hfalse⟩ := hagain
            rw [Finset.mem_insert, hold]
            constructor
            · rintro (rfl | ⟨hall, hnot, -⟩)
              · exact ⟨hall, (hnames h0).1 hfalse⟩
              · exact ⟨hall, hnot⟩
            · rintro ⟨hr, hnot⟩
              by_cases heq : r = node.recvFd
              · exact .inl heq
              · exact .inr ⟨hr, hnot, fun hnode => heq hnode.2.symm⟩
        · next hagain =>
            rw [hold]
            refine ⟨fun hr => ⟨hr.1, hr.2.1⟩, fun hr => ⟨hr.1, hr.2, ?_⟩⟩
            rintro ⟨h0, rfl⟩
            exact hagain ⟨h0, hr.1, (hnames h0).2 hr.2⟩
      have hget : ∀ fd', (s.setQueue fd nodes).queue fd' =
          if fd' = fd then nodes else s.queue fd' := s.fdToSendq.get_put fd nodes
      refine ⟨⟨?_, hrecv, ⟨?_, fun r hr => ((hrecv r).1 hr).1⟩, h.foreign⟩, ?_⟩
      · intro fd'
        show _ ↔ (s.setQueue fd nodes).queue fd' ≠ []
        rw [hget]
        by_cases hfd' : fd' = fd
        · subst hfd'
          rw [if_pos rfl]
          split
          · next hnil => exact ⟨fun hmem => absurd hmem (Finset.notMem_erase _ _),
              fun hne => absurd hnil hne⟩
          · next hne =>
              refine ⟨fun _ => hne, fun _ => (h.sendFds fd').2 ?_⟩
              rw [hqueue]
              exact cons_ne_nil _ _
        · rw [if_neg hfd']
          refine Iff.trans ?_ (h.sendFds fd')
          split
          · rw [Finset.mem_erase, and_iff_right hfd']
          · exact Iff.rfl
      · dsimp only
        split
        · exact (Finset.erase_subset _ _).trans h.subset.1
        · exact h.subset.1
      · intro fd' node' hnode
        have hmem : node' ∈ (s.setQueue fd nodes).queue fd' := hnode
        rw [hget] at hmem
        split at hmem
        · next hfd' =>
            subst hfd'
            exact h.lives fd' node' (by rw [hqueue]; exact mem_cons_of_mem _ hmem)
        · exact h.lives fd' node' hmem

theorem Sound.resend (h : s.Sound) {canRecv : Bool} {numLeft : Nat} {results : List SendResult} :
    (s.resend fd canRecv numLeft results).Sound := by
  rw [Sm.resend]
  split
  · exact h.enter _
  · next node nodes hqueue =>
      have hlives : ∀ node' ∈ node :: nodes, node'.life = (s.book fd).life := by
        intro node' hnode
        exact h.lives fd node' (by rw [hqueue]; exact hnode)
      have hlife := hlives node mem_cons_self
      have hnote : ∀ sent, (s.note fd fun b => b.resend node.life sent).Sound :=
        fun sent => h.note ⟨rfl, if_pos hlife⟩
      have hrest : ∀ sent rest, ((s.note fd fun b => b.resend node.life sent).setQueue fd
          ({ node with rest := rest } :: nodes)).Sound := by
        intro sent rest
        have hqueue' : (s.note fd fun b => b.resend node.life sent).queue fd = node :: nodes := hqueue
        refine (hnote sent).requeue ?_ ?_ ?_
        · rw [hqueue']
          exact iff_of_false (cons_ne_nil _ _) (cons_ne_nil _ _)
        · intro r
          rw [hqueue']
          simp only [mem_cons, exists_eq_or_imp]
        · intro node' hnode
          rw [(book_note (f := fun b => b.resend node.life sent) ⟨rfl, if_pos hlife⟩ fd).1]
          rcases mem_cons.1 hnode with rfl | hnode
          · exact hlife
          · exact hlives node' (mem_cons_of_mem _ hnode)
      dsimp only
      split
      · exact ((hnote _).enter _).removeFd
      · exact (hrest _ _).enter _
      · exact (hrest _ _).enter _

theorem Sound.send (h : s.Sound) {data : List UInt8} {value : Nat} {results : List SendResult}
    (hblocks : (s.sendNow fd data results).1 = .blocked → fd ∈ s.allFds) :
    (s.send fd data value results).Sound := by
  rw [Sm.send]
  have hnote : (s.note fd fun b => b.send data (s.sendNow fd data results).2.1).Sound :=
    h.note ⟨rfl, rfl⟩
  split
  · exact hnote.congr rfl rfl rfl rfl fun _ => ⟨rfl, rfl⟩
  · next hblocked => exact hnote.enqueue (hblocks hblocked)
  · exact hnote.note ⟨rfl, rfl⟩

theorem Sound.scan (h : s.Sound) {numLeft : Nat} {sends : List SendResult} :
    (s.scan fd numLeft sends).Sound := by
  rw [Sm.scan]
  split_ifs
  · exact h.enter _
  · exact h.enter _
  · exact (h.enter _).removeFd
  · exact h.enter _
  · exact h.resend
  · exact h.enter _

theorem Sound.proceed (h : s.Sound) (hcalls : s.calls = []) {a : Answer}
    (hadds : ∀ fd, s.adds (.go a) = some fd → ¬ s.Paused fd) : (s.proceed a).Sound := by
  rw [Sm.proceed]
  split
  case h_1 => exact h
  case h_2 => exact h.scan
  case h_3 =>
    split
    · exact h.enter _
    · exact h.enter _
    · exact (h.enter _).removeFd
  case h_4 fd newFd numLeft hphase =>
    split
    · next hok =>
        refine Sound.enter (h.addFd fun hall hvalue => hadds newFd ?_) _
        rw [adds, hcalls, hphase]
        exact if_pos ⟨hok, hall, hvalue⟩
    · exact h.enter _
  case h_5 => exact h.enter _
  case h_6 => exact h.pop.resend
  case h_7 =>
    split
    · exact h.congr rfl rfl rfl rfl fun _ => ⟨rfl, rfl⟩
    · exact h.enter _
  case h_8 =>
    split
    · exact h.enter _
    · exact (h.enter _).removeFd
    · exact h.enter _
    · exact (h.enter _).removeFd
  case h_9 =>
    split
    · exact h.enter _
    · exact (h.enter _).removeFd
  case h_10 => exact h.congr rfl rfl rfl rfl fun _ => ⟨rfl, rfl⟩

theorem Sound.step (h : s.Sound) {e : Event} (htidy : s.Tidy e) : (s.step e).Sound := by
  cases e with
  | addFd fd value isServer =>
    rw [Sm.step]
    split
    · next hcalling =>
        exact h.addFd fun hall hvalue => htidy.adds fd (if_pos ⟨hcalling, hall, hvalue⟩)
    · exact h
  | removeFd fd =>
    rw [Sm.step]
    split
    · exact h.removeFd
    · exact h
  | send fd data value results =>
    rw [Sm.step]
    split
    · next hcalling =>
        exact h.send fun hblocked => htidy.blocks fd (if_pos ⟨hcalling, hblocked⟩)
    · exact h
  | select recvReady sendReady failReady numReady =>
    rw [Sm.step]
    split
    · rw [Sm.select]
      split
      · exact h
      · exact h.congr rfl rfl rfl rfl fun _ => ⟨rfl, rfl⟩
    · exact h
  | go a =>
    rw [Sm.step, Sm.go]
    split
    · exact h.congr rfl rfl rfl rfl fun _ => ⟨rfl, rfl⟩
    · next fd value isServer calls hcalls =>
        have hclose : s.queue fd = [] := htidy.closes fd (by rw [closes, hcalls])
        have hreturn : ({ s with calls := calls } : Sm).Sound :=
          h.congr rfl rfl rfl rfl fun _ => ⟨rfl, rfl⟩
        exact hreturn.closed hclose
    · next hcalls => exact h.proceed hcalls htidy.adds

end Steps

/-- **Bookkeeping.**  In a run in which an fd has no queue when it is closed, a send blocks only
on an fd that is there and a paused fd is not added, `send_fds` are the fds with a queue,
`recv_fds` those that no queued send names, and no byte is sent on a foreign connection. -/
theorem bookkept {s : Sm} (hrun : Reaches Tidy s) : s.Bookkept := by
  have hsound : s.Sound := by
    induction hrun with
    | new => exact sound_new
    | step _ htidy ih => exact ih.step htidy
  exact hsound.toBookkept

/-- After a send that blocks, the fd has a queue and is waited for. -/
theorem bookkept_blocked : (run [.addFd 5 1 false, .send 5 [1, 2] 0 [.blocked]]).Bookkept := by
  have hadd : new.Tidy (.addFd 5 1 false) := by
    refine ⟨fun _ h => (nomatch h), fun _ h => (nomatch h), fun fd h hpaused => ?_⟩
    exact Bool.false_ne_true hpaused.2
  have hsend : (run [.addFd 5 1 false]).Tidy (.send 5 [1, 2] 0 [.blocked]) := by
    refine ⟨fun _ h => (nomatch h), fun fd h => ?_, fun _ h => (nomatch h)⟩
    obtain rfl := Option.some.inj h
    decide
  exact bookkept (.step (.step .new hadd) hsend)

/-- A connection is closed with two bytes queued, and they are queued still but not waited for.
In the callback for the first of two sends the connection is closed, and a new one has its
number: the second send is sent to it. -/
theorem bookkept_refuted :
    ¬ (run [.addFd 5 1 false, .send 5 [1, 2] 0 [.blocked], .removeFd 5, .go quiet]).Bookkept ∧
      ¬ (run ([Event.addFd 5 1 false, .send 5 [1] 0 [.blocked], .send 5 [2] 0 [], .select ∅ {5} ∅ 1] ++
        List.replicate 5 (Event.go quiet) ++ [Event.go { quiet with sends := [.sent 1] }, .removeFd 5,
          .go quiet, .addFd 5 1 false, .go { quiet with sends := [.sent 1] }])).Bookkept := by
  constructor
  · intro h
    have hmem := (h.sendFds 5).2 (by decide +kernel)
    revert hmem
    decide +kernel
  · intro h
    have hforeign := h.foreign 5
    revert hforeign
    decide +kernel

end Sm

end IDeviceStack.WebkitProxy
