/-
# `Usbmuxd.Window` — the window the daemon advertises

Every segment of the daemon tells the device how far it may go: to the byte
`th_ack + (th_win << 8)`.  `th_ack` counts the bytes the client's socket has taken,
and `th_win` never changes, so the device may be 131072 bytes ahead of the client.  The
in-buffer has room for twice as many.

The device is a `heard`, which says what it has received of the daemon's segments
when it sends one of its own, and how much it sends: a segment of the daemon may be
on its way for as long as it likes.

**Proved here.**  `conforming_device_accepted`.
-/
import IDeviceStack.Usbmuxd.Stream
import Mathlib.Algebra.Order.Ring.Nat

namespace IDeviceStack.Usbmuxd

open Lib List

/-- The `tx_win` of every connection. -/
def txWindow : Nat := 131072

/-- `th_ack + (th_win << 8)` of the last segment that `usb_send` took. -/
def advertisedLimit (t : List Obs) : U32 :=
  t.foldl (fun last o => match o with
    | .packetOut p true =>
      match p.header with
      | .tcp th => th.ack + (th.win.zeroExtend 32 <<< 8)
      | _ => last
    | _ => last) 0

/-- The acknowledgement number in a trace, without the wrap. -/
def ackedBy (t : List Obs) : Nat := if established t then 1 + (written t).length else 0

/-- The byte the device may go up to, without the wrap; `pre` is the trace so far. -/
def horizonFrom (pre : List Obs) (n : Nat) : List Obs → Nat
  | [] => n
  | .packetOut p true :: t => horizonFrom (pre ++ [.packetOut p true]) (ackedBy pre + txWindow) t
  | o :: t => horizonFrom (pre ++ [o]) n t

def horizon (t : List Obs) : Nat := horizonFrom [] 0 t

/-! ## The limit of a trace -/

theorem established_append (t u : List Obs) :
    established (t ++ u) = (established t || established u) :=
  any_append

theorem written_append (t u : List Obs) : written (t ++ u) = written t ++ written u :=
  flatMap_append

theorem ackedBy_mono (t u : List Obs) : ackedBy t ≤ ackedBy (t ++ u) := by
  rw [ackedBy, ackedBy, established_append, written_append, length_append]
  cases established t with
  | false => exact Nat.zero_le _
  | true =>
    simp only [Bool.true_or, if_true]
    omega

/-- A segment that was sent. -/
def Obs.IsTold (o : Obs) : Prop := ∃ p, o = .packetOut p true

variable {o : Obs}

theorem horizonFrom_of_not_told (h : ¬ o.IsTold) (pre t : List Obs) (n : Nat) :
    horizonFrom pre n (o :: t) = horizonFrom (pre ++ [o]) n t := by
  cases o with
  | packetOut p ok =>
    cases ok with
    | true => exact absurd ⟨p, rfl⟩ h
    | false => rfl
  | _ => rfl

theorem horizonFrom_snoc (pre t : List Obs) (n : Nat) (o : Obs) :
    (∀ p, o = .packetOut p true → horizonFrom pre n (t ++ [o]) = ackedBy (pre ++ t) + txWindow) ∧
    (¬ o.IsTold → horizonFrom pre n (t ++ [o]) = horizonFrom pre n t) := by
  induction t generalizing pre n with
  | nil =>
    refine ⟨?_, fun ho => horizonFrom_of_not_told ho pre [] n⟩
    rintro p rfl
    rw [append_nil]
    rfl
  | cons x t ih =>
    have hpre : pre ++ x :: t = (pre ++ [x]) ++ t := by
      rw [append_assoc, singleton_append]
    rw [hpre, cons_append]
    by_cases hx : x.IsTold
    · obtain ⟨q, rfl⟩ := hx
      exact ih _ _
    · rw [horizonFrom_of_not_told hx, horizonFrom_of_not_told hx]
      exact ih _ _

theorem horizon_told (t : List Obs) (p : MuxPacket) :
    horizon (t ++ [.packetOut p true]) = ackedBy t + txWindow :=
  (horizonFrom_snoc [] t 0 _).1 p rfl

theorem horizon_keep (t : List Obs) (h : ¬ o.IsTold) : horizon (t ++ [o]) = horizon t :=
  (horizonFrom_snoc [] t 0 o).2 h

theorem horizon_le (t : List Obs) : horizon t ≤ ackedBy t + txWindow := by
  induction t using reverseRecOn with
  | nil => exact Nat.zero_le _
  | append_singleton t o ih =>
    have hmono := ackedBy_mono t [o]
    by_cases ho : o.IsTold
    · obtain ⟨p, rfl⟩ := ho
      rw [horizon_told]
      omega
    · rw [horizon_keep t ho]
      omega

theorem horizon_mono (t u : List Obs) : horizon t ≤ horizon (t ++ u) := by
  induction u using reverseRecOn with
  | nil => rw [append_nil]
  | append_singleton u o ih =>
    rw [← append_assoc]
    by_cases ho : o.IsTold
    · obtain ⟨p, rfl⟩ := ho
      rw [horizon_told]
      have hle := horizon_le t
      have hmono := ackedBy_mono t u
      omega
    · rw [horizon_keep _ ho]
      exact ih

variable {t : List Obs}

theorem txWindow_le_horizon (h : ∃ p, .packetOut p true ∈ t) : txWindow ≤ horizon t := by
  obtain ⟨p, hp⟩ := h
  obtain ⟨t1, t2, rfl⟩ := append_of_mem hp
  have hmono := horizon_mono (t1 ++ [.packetOut p true]) t2
  rw [append_assoc, singleton_append, horizon_told] at hmono
  omega

/-! ## The limit and the packets -/

/-- The window in every packet, and the acknowledgement in front of the SYN/ACK. -/
def Offered (t : List Obs) : Prop :=
  EachAt (fun pre o => ∀ p ok, o = .packetOut p ok → ∃ th, p.header = .tcp th ∧
    th.win = 512#16 ∧ (established pre = false → th.ack = 0)) t

theorem advertisedLimit_keep (t : List Obs) (h : ¬ o.IsTold) :
    advertisedLimit (t ++ [o]) = advertisedLimit t := by
  rw [advertisedLimit, foldl_append]
  cases o with
  | packetOut p ok =>
    cases ok with
    | true => exact absurd ⟨p, rfl⟩ h
    | false => rfl
  | _ => rfl

theorem advertisedLimit_told (t : List Obs) {p : MuxPacket} {th : Tcphdr} (h : p.header = .tcp th) :
    advertisedLimit (t ++ [.packetOut p true]) = th.ack + (th.win.zeroExtend 32 <<< 8) := by
  rw [advertisedLimit, foldl_append]
  simp only [foldl_cons, foldl_nil, h]

theorem advertisedLimit_eq (heach : EachAt ObsOk t) (ho : Offered t) :
    advertisedLimit t = BitVec.ofNat 32 (horizon t) := by
  induction t using reverseRecOn with
  | nil => rfl
  | append_singleton t o ih =>
    obtain ⟨heach1, hlast⟩ := eachAt_snoc.mp heach
    obtain ⟨ho1, hoffer⟩ := eachAt_snoc.mp ho
    by_cases htold : o.IsTold
    · obtain ⟨p, rfl⟩ := htold
      obtain ⟨th, hth, hp⟩ := hlast
      obtain ⟨th', hth', hwin, hzero⟩ := hoffer p true rfl
      rw [hth] at hth'
      cases hth'
      have hack : th.ack = BitVec.ofNat 32 (ackedBy t) := by
        rw [ackedBy]
        cases hest : established t with
        | false => exact hzero hest
        | true =>
          rw [hp.ack hest, if_pos rfl, BitVec.ofNat_add]
          rfl
      rw [advertisedLimit_told t hth, horizon_told, hack, hwin, BitVec.ofNat_add]
      rfl
    · rw [advertisedLimit_keep t htold, horizon_keep t htold]
      exact ih heach1 ho1

/-! ## What the functions of a connection do to the window -/

/-- A connection in somebody's hands, and what it has told the device. -/
structure Offers (s : Sys) (c : MuxConnection) : Prop where
  offered : Offered s.trace
  txWin : c.txWin = BitVec.ofNat 32 txWindow

theorem Offered.snoc (h : Offered t) (ho : ∀ p ok, o ≠ .packetOut p ok) : Offered (t ++ [o]) :=
  eachAt_snoc.mpr ⟨h, fun p ok hp => absurd hp (ho p ok)⟩

/-- What may have become of a connection that was in state `s`: if it is still there, the device
has been told nothing else, and at most `n` bytes more have been taken from it. -/
def Kept (n : Nat) (s : Sys) (w : Sys × Slot) : Prop :=
  ∀ c, w.2 = .live c → Offers w.1 c ∧
    (acceptedBytes w.1.trace).length ≤ (acceptedBytes s.trace).length + n

variable {n : Nat} {s : Sys}

theorem Kept.of_freed {w : Sys × Slot} (h : w.2 = .freed) : Kept n s w := by
  intro c hc
  rw [h] at hc
  cases hc

variable {c : MuxConnection}

theorem connectionTeardown_freed (env : Env) (s : Sys) (h : c.state ≠ .dead) :
    (connectionTeardown env s c).2 = .freed := by
  rw [connectionTeardown, if_neg h]
  extract_lets r
  split
  · split
    · rfl
    · split <;> rfl
  · rfl

variable {s₀ : Sys}

theorem kept_teardown (env : Env) (s : Sys) (h : c.state ≠ .dead) :
    Kept n s₀ (connectionTeardown env s c) :=
  .of_freed (connectionTeardown_freed env s h)

theorem Offers.sendTcp (h : Offers s c) (env : Env) (flags : U8) {data : List UInt8}
    (hest : established s.trace = true)
    (hfit : data.length ≤ usbMtu - sizeofMuxHeader - sizeofTcphdr) :
    ∃ s' a l k r, Usbmuxd.sendTcp env s c flags data = (s', touched c a l k, r) ∧
      Offers s' (touched c a l k) ∧ acceptedBytes s'.trace = acceptedBytes s.trace := by
  obtain ⟨s', p, ok, a, l, k, n, hsend, htrace, hhdr, -, -⟩ := sendTcp_spec env s c flags hfit
  refine ⟨s', a, l, k, _, hsend, ⟨?_, h.txWin⟩, ?_⟩
  · rw [htrace]
    refine eachAt_snoc.mpr ⟨h.offered, ?_⟩
    intro q ok' hq
    cases hq
    refine ⟨c.tcphdr flags, hhdr, ?_, ?_⟩
    · show (c.txWin >>> 8).truncate 16 = _
      rw [h.txWin]
      rfl
    · intro hno
      rw [hest] at hno
      cases hno
  · rw [htrace]
    simp [Obs.acceptedBytes]

theorem Offers.sendTcpAck (h : Offers s c) (env : Env) (hest : established s.trace = true)
    (hdead : c.state ≠ .dead)
    (hlen : (acceptedBytes s.trace).length ≤ (acceptedBytes s₀.trace).length + n) :
    Kept n s₀ (Usbmuxd.sendTcpAck env s c) := by
  obtain ⟨s', a, l, k, r, hsend, hoffers, hacc⟩ :=
    h.sendTcp env thAck hest (show ([] : List UInt8).length ≤ _ by simp)
  rw [Usbmuxd.sendTcpAck, hsend]
  cases r with
  | none => exact kept_teardown env s' hdead
  | some _ =>
    intro c' hc'
    cases hc'
    refine ⟨⟨hoffers.offered, hoffers.txWin⟩, ?_⟩
    rw [hacc]
    exact hlen

theorem Offers.connectionDeviceInput (h : Offers s c) (env : Env)
    (hest : established s.trace = true) (hdead : c.state ≠ .dead) (payload : List UInt8)
    (hacc : acceptedBytes s.trace = acceptedBytes s₀.trace) :
    match Usbmuxd.connectionDeviceInput env s c payload with
    | (s', .live c') => Offers s' c' ∧ established s'.trace = true ∧ c'.state = c.state ∧
        (acceptedBytes s'.trace).length ≤ (acceptedBytes s₀.trace).length + payload.length
    | _ => True := by
  rw [Usbmuxd.connectionDeviceInput]
  split
  · next s' c' heq =>
      split at heq
      · have hfreed := connectionTeardown_freed env s hdead
        rw [heq] at hfreed
        cases hfreed
      · cases heq
        refine ⟨⟨h.offered.snoc (by nofun), h.txWin⟩, ?_, rfl, ?_⟩
        · show established (s.trace ++ [.accepted payload]) = true
          rw [established_append, hest]
          rfl
        · show (acceptedBytes (s.trace ++ [.accepted payload])).length ≤ _
          rw [← hacc]
          simp [Obs.acceptedBytes]
  · trivial

theorem Offers.kept (h : Offers s c)
    (hlen : (acceptedBytes s.trace).length ≤ (acceptedBytes s₀.trace).length + n) :
    Kept n s₀ (s, .live (updateConnection c)) := by
  intro c' hc'
  cases hc'
  exact ⟨⟨h.offered, h.txWin⟩, hlen⟩

theorem Offers.clientWritable (h : Offers s c) (env : Env) (hdead : c.state ≠ .dead) :
    match Usbmuxd.clientWritable env s c with
    | .error torn => torn.2 = .freed
    | .ok (s', c') => Offers s' c' ∧ acceptedBytes s'.trace = acceptedBytes s.trace ∧
        (established s.trace = true → established s'.trace = true) := by
  rw [Usbmuxd.clientWritable]
  cases env.clientSend s.tick c.ibSize.toNat with
  | none => exact connectionTeardown_freed env _ hdead
  | some size =>
    dsimp only
    have hlog : ∀ bs, Offered (s.asked.log (.clientWrote bs)).trace ∧
        acceptedBytes (s.asked.log (.clientWrote bs)).trace = acceptedBytes s.trace ∧
        (established s.trace = true →
          established (s.asked.log (.clientWrote bs)).trace = true) := by
      intro bs
      refine ⟨h.offered.snoc (by nofun), ?_, ?_⟩
      · simp [Sys.log, Sys.asked, Obs.acceptedBytes]
      · intro hest
        show established (s.trace ++ [.clientWrote bs]) = true
        rw [established_append, hest]
        rfl
    by_cases hzero : size.val = 0
    · rw [if_pos hzero]
      exact connectionTeardown_freed env _ hdead
    · rw [if_neg hzero]
      obtain ⟨hoff, hacc, hest⟩ := hlog (c.ibBuf.take size.val)
      by_cases hall : size.val = c.ibSize.toNat
      · rw [if_pos hall]
        exact ⟨⟨hoff, h.txWin⟩, hacc, hest⟩
      · rw [if_neg hall]
        exact ⟨⟨hoff, h.txWin⟩, hacc, hest⟩

theorem Offers.clientReadable (h : Offers s c) (hlive : Live s c) (env : Env)
    (hpos : 0 < c.sendable.toNat)
    (hlen : (acceptedBytes s.trace).length ≤ (acceptedBytes s₀.trace).length + n) :
    Kept n s₀ (Usbmuxd.clientReadable env s c) := by
  have hdead : c.state ≠ .dead := hlive.phase.ne_dead
  obtain ⟨-, hest, -⟩ := hlive.connected_of_sendable hpos
  rw [Usbmuxd.clientReadable]
  cases env.clientRecv s.tick c.sendable.toNat with
  | none => exact kept_teardown env _ hdead
  | some data =>
    obtain ⟨data, hle⟩ := data
    dsimp only
    by_cases hne : data = []
    · rw [if_pos hne]
      exact kept_teardown env _ hdead
    · rw [if_neg hne]
      have hfit : data.length ≤ usbMtu - sizeofMuxHeader - sizeofTcphdr :=
        (hlive.sendable ▸ hle).trans hlive.caps.sendable_le
      have hread : Offers (s.asked.log (.clientRead data)) c :=
        ⟨h.offered.snoc (by nofun), h.txWin⟩
      have hest' : established (s.asked.log (.clientRead data)).trace = true := by
        show established (s.trace ++ [.clientRead data]) = true
        rw [established_append, hest]
        rfl
      obtain ⟨s', a, l, k, r, hsend, hoffers, hacc⟩ := hread.sendTcp env thAck hest' hfit
      rw [hsend]
      cases r with
      | none => exact kept_teardown env s' hdead
      | some m =>
        refine Offers.kept ⟨hoffers.offered, hoffers.txWin⟩ ?_
        have hsame : acceptedBytes (s.asked.log (.clientRead data)).trace =
            acceptedBytes s.trace := by
          simp [Sys.log, Sys.asked, Obs.acceptedBytes]
        rw [hacc, hsame]
        exact hlen

theorem Offers.deviceClientProcess (h : Offers s c) (hlive : Live s c) (env : Env)
    (pollin pollout : Bool) : Kept 0 s (Usbmuxd.deviceClientProcess env s c pollin pollout) := by
  have hdead : c.state ≠ .dead := hlive.phase.ne_dead
  have hread : ∀ s' c', Offers s' c' → Live s' c' →
      acceptedBytes s'.trace = acceptedBytes s.trace →
      Kept 0 s (if pollin ∧ 0 < c'.sendable.toNat then Usbmuxd.clientReadable env s' c'
        else (s', .live (updateConnection c'))) := by
    intro s' c' h' hlive' hacc
    have hlen : (acceptedBytes s'.trace).length ≤ (acceptedBytes s.trace).length + 0 := by
      rw [hacc]
      exact le_rfl
    split
    · next hin => exact h'.clientReadable hlive' env hin.2 hlen
    · exact h'.kept hlen
  rw [Usbmuxd.deviceClientProcess]
  by_cases hout : pollout ∧ 0 < c.ibSize.toNat
  · rw [if_pos hout]
    have hgood := hlive.clientWritable env hout.2
    have hoff := h.clientWritable env hdead
    generalize Usbmuxd.clientWritable env s c = r at hgood hoff ⊢
    cases r with
    | error torn => exact .of_freed hoff
    | ok w =>
      obtain ⟨s', c'⟩ := w
      exact hread s' c' hoff.1 hgood hoff.2.1
  · rw [if_neg hout]
    exact hread s c h hlive rfl

theorem Offers.deviceTcpInput (h : Offers s c) (hlive : Live s c) (env : Env) (th : Tcphdr)
    (payload : List UInt8) : Kept payload.length s (Usbmuxd.deviceTcpInput env s c th payload) := by
  have hseg : Offers (s.log (.segIn th)) (c.seen th) := ⟨h.offered.snoc (by simp), h.txWin⟩
  have hacc : acceptedBytes (s.log (.segIn th)).trace = acceptedBytes s.trace := by
    simp [Sys.log, Obs.acceptedBytes]
  have hlen : (acceptedBytes (s.log (.segIn th)).trace).length ≤
      (acceptedBytes s.trace).length + payload.length := by
    rw [hacc]
    exact Nat.le_add_right _ _
  have hdead : (c.seen th).state ≠ .dead := hlive.phase.ne_dead
  rw [Usbmuxd.deviceTcpInput]
  rcases hlive.phase with ⟨hstate, -⟩ | ⟨hstate, hest, -⟩
  · rw [hstate]
    dsimp only
    rw [connectingInput]
    by_cases hflags : th.flags ≠ thSyn ||| thAck
    · rw [if_pos hflags]
      split
      · exact kept_teardown env _ (by simp)
      · exact kept_teardown env _ hdead
    · rw [if_neg hflags]
      have hest : established (s.log (.segIn th)).trace = true := by
        simp only [Sys.log, established_snoc_segIn, Bool.or_eq_true, beq_iff_eq]
        exact Or.inr (not_not.mp hflags)
      have hopen : Offers (s.log (.segIn th)) (c.seen th).synAcked := ⟨hseg.offered, hseg.txWin⟩
      obtain ⟨s', a, l, k, r, hsend, hoffers, hacc'⟩ :=
        hopen.sendTcp env thAck hest (show ([] : List UInt8).length ≤ _ by simp)
      rw [hsend]
      cases r with
      | none => exact kept_teardown env s' hdead
      | some m =>
        dsimp only
        split
        · refine Offers.kept ⟨hoffers.offered, hoffers.txWin⟩ ?_
          show (acceptedBytes s'.trace).length ≤ _
          rw [hacc']
          exact hlen
        · intro c' hc'
          cases hc'
  · rw [hstate]
    dsimp only
    rw [connectedInput]
    by_cases hflags : th.flags ≠ thAck
    · rw [if_pos hflags]
      split
      · exact kept_teardown env _ (by simp)
      · exact kept_teardown env _ hdead
    · rw [if_neg hflags]
      have hest' : established (s.log (.segIn th)).trace = true := by
        simp [Sys.log, hest]
      have hin := hseg.connectionDeviceInput env hest' hdead payload hacc
      generalize Usbmuxd.connectionDeviceInput env (s.log (.segIn th)) (c.seen th) payload = r at hin
      obtain ⟨s', slot⟩ := r
      cases slot with
      | live c' =>
        obtain ⟨hoff, hest'', hsame, hle⟩ := hin
        exact hoff.sendTcpAck env hest'' (by rw [hsame]; exact hdead) hle
      | freed =>
        intro c' hc'
        cases hc'
      | dangling =>
        intro c' hc'
        cases hc'

/-! ## Whole runs -/

/-- The bytes that a device sends. -/
def Event.payloadLength : Event → Nat
  | .tcp _ payload => payload.val.length
  | _ => 0

def deviceSent (events : List Event) : Nat := (events.map Event.payloadLength).sum

theorem deviceSent_snoc (events : List Event) (e : Event) :
    deviceSent (events ++ [e]) = deviceSent events + e.payloadLength := by
  simp [deviceSent]

theorem Offers.step (h : Offers s c) (hlive : Live s c) (env : Env) (e : Event) :
    Kept e.payloadLength s (Usbmuxd.step env (s, .live c) e) := by
  have hdead : c.state ≠ .dead := hlive.phase.ne_dead
  have hstay : Kept 0 s (s, .live c) := by
    intro c' hc'
    cases hc'
    exact ⟨h, le_rfl⟩
  cases e with
  | tcp th payload => exact h.deviceTcpInput hlive env th payload.val
  | client pollin pollout => exact h.deviceClientProcess hlive env pollin pollout
  | checkTimeouts ct =>
    show Kept 0 s (Usbmuxd.checkTimeout env s c ct)
    rw [Usbmuxd.checkTimeout]
    split
    · next hdue => exact h.sendTcpAck env (hlive.phase.of_connected hdue.1).1 hdead le_rfl
    · exact hstay
  | abort => exact kept_teardown env s hdead
  | remove =>
    show Kept 0 s (Usbmuxd.deviceRemove env s c)
    rw [Usbmuxd.deviceRemove]
    split
    · exact kept_teardown env _ hdead
    · exact hstay

section Device

variable (env : Env) (dev : MuxDevice) (sport dport : U16) (ibBuf : InBuf)

theorem run_snoc (events : List Event) (e : Event) :
    run env dev sport dport ibBuf (events ++ [e]) =
      step env (run env dev sport dport ibBuf events) e :=
  foldl_append

variable {c : MuxConnection}

theorem live_of_step {w : Sys × Slot} {e : Event} (h : (step env w e).2 = .live c) :
    ∃ s c0, w = (s, .live c0) := by
  obtain ⟨s, slot⟩ := w
  cases slot with
  | live c0 => exact ⟨s, c0, rfl⟩
  | freed => cases h
  | dangling => cases h

theorem offers_start (c : MuxConnection)
    (h : (deviceStartConnect env ⟨dev, 0, []⟩ sport dport ibBuf).2 = .live c) :
    Offers (deviceStartConnect env ⟨dev, 0, []⟩ sport dport ibBuf).1 c ∧
      (acceptedBytes (deviceStartConnect env ⟨dev, 0, []⟩ sport dport ibBuf).1.trace).length ≤ 0 := by
  revert h
  unfold deviceStartConnect
  extract_lets c0
  obtain ⟨s', p, ok, a, l, k, n, hsend, htrace, hhdr, -, -⟩ :=
    sendTcp_spec env ⟨dev, 0, []⟩ c0 thSyn (show ([] : List UInt8).length ≤ _ by simp)
  rw [hsend]
  cases ok with
  | false => nofun
  | true =>
    intro h
    cases h
    refine ⟨⟨?_, rfl⟩, ?_⟩
    · show Offered s'.trace
      rw [htrace]
      refine eachAt_snoc.mpr ⟨eachAt_nil, ?_⟩
      intro q ok' hq
      cases hq
      refine ⟨_, hhdr, ?_, fun _ => rfl⟩
      show ((131072#32) >>> 8).truncate 16 = _
      rfl
    · show (acceptedBytes s'.trace).length ≤ _
      rw [htrace]
      exact Nat.zero_le _

theorem offers_run (events : List Event) (c : MuxConnection)
    (h : (run env dev sport dport ibBuf events).2 = .live c) :
    Offers (run env dev sport dport ibBuf events).1 c ∧
      (acceptedBytes (run env dev sport dport ibBuf events).1.trace).length ≤
        deviceSent events := by
  induction events using reverseRecOn generalizing c with
  | nil => exact offers_start env dev sport dport ibBuf c h
  | append_singleton events e ih =>
    have hgood := good_run env dev sport dport ibBuf events
    rw [run_snoc] at h ⊢
    obtain ⟨s, c0, hw⟩ := live_of_step env h
    rw [hw] at hgood h ih ⊢
    obtain ⟨hoff, hle⟩ := ih c0 rfl
    obtain ⟨hoff', hle'⟩ := hoff.step hgood env e c h
    refine ⟨hoff', ?_⟩
    rw [deviceSent_snoc]
    exact hle'.trans (Nat.add_le_add_right hle _)

/-- A device that has heard so much of the daemon's segments when it sends a segment, and never
goes beyond the limit of the last one, counting its own bytes from sequence number 1. -/
structure Conforms (heard : List Event → List Obs) (events : List Event) : Prop where
  sofar : ∀ pre, pre <+: events → heard pre <+: (run env dev sport dport ibBuf pre).1.trace
  keeps : ∀ pre e, pre ++ [e] <+: events → heard pre <+: heard (pre ++ [e])
  within : ∀ pre th payload, pre ++ [.tcp th payload] <+: events →
    (∃ p, .packetOut p true ∈ heard pre) ∧
      payload.val.length ≤
        (advertisedLimit (heard pre) - (1 + BitVec.ofNat 32 (deviceSent pre))).toNat

variable {env dev sport dport ibBuf} {heard : List Event → List Obs} {events : List Event}

variable {pre : List Event}

theorem Conforms.limit (h : Conforms env dev sport dport ibBuf heard events) (hpre : pre <+: events)
    (hc : (run env dev sport dport ibBuf pre).2 = .live c) :
    advertisedLimit (heard pre) = BitVec.ofNat 32 (horizon (heard pre)) ∧
      horizon (heard pre) ≤ ackedBy (run env dev sport dport ibBuf pre).1.trace + txWindow := by
  have hgood := (good_run env dev sport dport ibBuf pre).traceOk
  obtain ⟨hoff, -⟩ := offers_run env dev sport dport ibBuf pre c hc
  obtain ⟨rest, hrest⟩ := h.sofar pre hpre
  have heach := hgood.each
  have hoffered := hoff.offered
  rw [← hrest] at heach hoffered ⊢
  refine ⟨advertisedLimit_eq heach.left hoffered.left, ?_⟩
  exact (horizon_mono _ rest).trans (horizon_le _)

theorem ackedBy_le_deviceSent {pre : List Event} {c : MuxConnection}
    (hc : (run env dev sport dport ibBuf pre).2 = .live c) :
    ackedBy (run env dev sport dport ibBuf pre).1.trace ≤ 1 + deviceSent pre := by
  have hpfx := (good_run env dev sport dport ibBuf pre).traceOk.pfx.length_le
  obtain ⟨-, hle⟩ := offers_run env dev sport dport ibBuf pre c hc
  rw [ackedBy]
  split <;> omega

theorem Conforms.next (h : Conforms env dev sport dport ibBuf heard events) {th : Tcphdr}
    {payload : {p : List UInt8 // p.length ≤ devMru}} (hpre : pre ++ [.tcp th payload] <+: events)
    (hc : (run env dev sport dport ibBuf pre).2 = .live c)
    (hsofar : deviceSent pre = 0 ∨ 1 + deviceSent pre ≤ horizon (heard pre)) :
    1 + (deviceSent pre + payload.val.length) ≤ horizon (heard pre) := by
  obtain ⟨htold, hwithin⟩ := h.within pre th payload hpre
  obtain ⟨hlimit, hle⟩ := h.limit ((prefix_append _ _).trans hpre) hc
  have hwin := txWindow_le_horizon htold
  have hacked := ackedBy_le_deviceSent hc
  have hdiff : advertisedLimit (heard pre) - (1 + BitVec.ofNat 32 (deviceSent pre)) =
      BitVec.ofNat 32 (horizon (heard pre) - (1 + deviceSent pre)) := by
    have hsplit : horizon (heard pre) =
        (horizon (heard pre) - (1 + deviceSent pre)) + (1 + deviceSent pre) := by
      simp only [txWindow] at hwin
      omega
    rw [hlimit, hsplit, BitVec.ofNat_add, BitVec.ofNat_add 1, Nat.add_sub_cancel]
    exact BitVec.add_sub_cancel _ _
  rw [hdiff, BitVec.toNat_ofNat, Nat.mod_eq_of_lt (by simp only [txWindow] at *; omega)] at hwithin
  simp only [txWindow] at hwin
  omega

theorem Conforms.sent_le (h : Conforms env dev sport dport ibBuf heard events)
    (hpre : pre <+: events) (hc : (run env dev sport dport ibBuf pre).2 = .live c) :
    deviceSent pre = 0 ∨ 1 + deviceSent pre ≤ horizon (heard pre) := by
  induction pre using reverseRecOn generalizing c with
  | nil => exact .inl rfl
  | append_singleton pre e ih =>
    rw [run_snoc] at hc
    obtain ⟨s, c0, hw⟩ := live_of_step env hc
    have hlive : (run env dev sport dport ibBuf pre).2 = .live c0 := by rw [hw]
    have hbefore := ih ((prefix_append _ _).trans hpre) hlive
    obtain ⟨rest, hrest⟩ := h.keeps pre e hpre
    have hmono := horizon_mono (heard pre) rest
    rw [hrest] at hmono
    rw [deviceSent_snoc]
    cases e with
    | tcp th payload =>
      have hnext := h.next hpre hlive hbefore
      exact .inr (hnext.trans hmono)
    | _ => exact hbefore.imp id fun hle => hle.trans hmono

theorem acceptedBytes_flushLoop (env : Env) (fuel : Nat) (s : Sys) (c : MuxConnection) :
    acceptedBytes (flushLoop env fuel s c).1.trace = acceptedBytes s.trace := by
  have hlog : ∀ bs, acceptedBytes (s.asked.log (.clientWrote bs)).trace = acceptedBytes s.trace := by
    intro bs
    simp [Sys.log, Sys.asked, Obs.acceptedBytes]
  induction fuel generalizing s c with
  | zero => rfl
  | succ fuel ih =>
    rw [flushLoop]
    cases env.clientSend s.tick c.ibSize.toNat with
    | none => rfl
    | some size =>
      dsimp only
      split
      · rfl
      · split
        · exact hlog _
        · refine (ih _ _ ?_).trans (hlog _)
          intro bs
          simp [Sys.log, Sys.asked, Obs.acceptedBytes]

theorem acceptedBytes_sendTcp (env : Env) (s : Sys) (c : MuxConnection) (flags : U8) :
    acceptedBytes (sendTcp env s c flags []).1.trace = acceptedBytes s.trace := by
  obtain ⟨s', p, ok, a, l, k, n, hsend, htrace, -⟩ :=
    sendTcp_spec env s c flags (show ([] : List UInt8).length ≤ _ by simp)
  rw [hsend, htrace]
  simp [Obs.acceptedBytes]

theorem acceptedBytes_teardown (env : Env) (s : Sys) (c : MuxConnection) :
    acceptedBytes (connectionTeardown env s c).1.trace = acceptedBytes s.trace := by
  have hrst : ∃ s' c', (if s.dev.state ≠ .dead ∧ c.state ≠ .dying ∧ c.state ≠ .refused then
      ((sendTcp env s c thRst []).1, (sendTcp env s c thRst []).2.1) else (s, c)) = (s', c') ∧
      acceptedBytes s'.trace = acceptedBytes s.trace := by
    split
    · exact ⟨_, _, rfl, acceptedBytes_sendTcp env s c thRst⟩
    · exact ⟨s, c, rfl, rfl⟩
  obtain ⟨s', c', heq, hacc⟩ := hrst
  unfold connectionTeardown
  simp only [heq]
  split
  · rfl
  · split
    · split
      · exact hacc
      · split
        · exact (acceptedBytes_flushLoop env _ _ _).trans hacc
        · exact hacc
    · exact hacc

theorem sendTcpAck_keeps (env : Env) (s : Sys) (c : MuxConnection) (hdead : c.state ≠ .dead) :
    acceptedBytes (sendTcpAck env s c).1.trace = acceptedBytes s.trace ∧
      (sendTcpAck env s c).2 ≠ .dangling := by
  have hsent := acceptedBytes_sendTcp env s c thAck
  obtain ⟨s', p, ok, a, l, k, n, hsend, htrace, -⟩ :=
    sendTcp_spec env s c thAck (show ([] : List UInt8).length ≤ _ by simp)
  rw [hsend] at hsent
  rw [sendTcpAck, hsend]
  cases ok with
  | true => exact ⟨hsent, nofun⟩
  | false =>
    refine ⟨(acceptedBytes_teardown env s' _).trans hsent, ?_⟩
    have hopen : (touched c a l k).state ≠ .dead := hdead
    show (connectionTeardown env s' (touched c a l k)).2 ≠ _
    rw [connectionTeardown_freed env s' hopen]
    nofun

theorem deviceTcpInput_fits (env : Env) (s : Sys) {c : MuxConnection} {th : Tcphdr}
    {payload : List UInt8} (hstate : c.state = .connected) (hflags : th.flags = thAck)
    (hfits : ¬ c.ibSize + BitVec.ofNat 32 payload.length > c.ibCapacity) :
    acceptedBytes (deviceTcpInput env s c th payload).1.trace = acceptedBytes s.trace ++ payload ∧
      (deviceTcpInput env s c th payload).2 ≠ .dangling := by
  have hfits' : ¬ (c.seen th).ibSize + BitVec.ofNat 32 payload.length > (c.seen th).ibCapacity :=
    hfits
  have hin : deviceTcpInput env s c th payload =
      connectedInput env (s.log (.segIn th)) (c.seen th) th payload := by
    rw [deviceTcpInput, hstate]
  have hopen : (c.seen th).state ≠ .dead := by
    show c.state ≠ .dead
    rw [hstate]
    nofun
  rw [hin, connectedInput, if_neg (not_not_intro hflags), connectionDeviceInput, if_neg hfits']
  -- whatever becomes of the ACK comes later
  obtain ⟨hacc, hslot⟩ := sendTcpAck_keeps env ((s.log (.segIn th)).log (.accepted payload))
    (updateConnection { c.seen th with
      ibBuf := memcpy (c.seen th).ibBuf (c.seen th).ibSize.toNat payload
      ibSize := (c.seen th).ibSize + BitVec.ofNat 32 payload.length
      rxRecvd := (c.seen th).rxRecvd + BitVec.ofNat 32 payload.length }) hopen
  refine ⟨hacc.trans ?_, hslot⟩
  simp [Sys.log, Obs.acceptedBytes]

/-- **Receive window.**  A device that keeps to the last limit it has heard of never meets the
overflow branch: the payload of every segment on an open connection fits, and is taken. -/
theorem conforming_device_accepted (env : Env) (dev : MuxDevice) (sport dport : U16) (ibBuf : InBuf)
    (heard : List Event → List Obs) (events : List Event)
    (h : Conforms env dev sport dport ibBuf heard events) (pre : List Event) (th : Tcphdr)
    (payload : {p : List UInt8 // p.length ≤ devMru}) (hpre : pre ++ [.tcp th payload] <+: events)
    (c : MuxConnection) (hc : (run env dev sport dport ibBuf pre).2 = .live c)
    (hstate : c.state = .connected) (hflags : th.flags = thAck) :
    c.ibSize.toNat + payload.val.length ≤ c.ibCapacity.toNat ∧
      ¬ c.ibSize + BitVec.ofNat 32 payload.val.length > c.ibCapacity ∧
      acceptedBytes (run env dev sport dport ibBuf (pre ++ [.tcp th payload])).1.trace =
        acceptedBytes (run env dev sport dport ibBuf pre).1.trace ++ payload.val ∧
      (run env dev sport dport ibBuf (pre ++ [.tcp th payload])).2 ≠ .dangling := by
  have hpre' := (prefix_append pre [.tcp th payload]).trans hpre
  have hnext := h.next hpre hc (h.sent_le hpre' hc)
  obtain ⟨-, hle⟩ := h.limit hpre' hc
  obtain ⟨-, hsent⟩ := offers_run env dev sport dport ibBuf pre c hc
  have hgood := good_run env dev sport dport ibBuf pre
  rw [run_snoc]
  generalize run env dev sport dport ibBuf pre = w at hc hle hsent hgood ⊢
  obtain ⟨s, slot⟩ := w
  cases hc
  have hlive : Live s c := hgood
  have hest := (hlive.phase.of_connected hstate).1
  have hacked : ackedBy s.trace = 1 + (written s.trace).length := if_pos hest
  have hib : c.ib.length = c.ibSize.toNat := by
    have hfill := hlive.fill
    rw [MuxConnection.ib, length_take, hlive.buf]
    omega
  have hstream := congrArg List.length hlive.stream
  rw [length_append, hib] at hstream
  have hroom : c.ibSize.toNat + payload.val.length ≤ 131072 := by
    dsimp only at hle hsent
    simp only [txWindow] at hle
    omega
  have hcap : c.ibCapacity.toNat = 262144 := by
    rw [hlive.caps.inCap]
    rfl
  have hfits : ¬ c.ibSize + BitVec.ofNat 32 payload.val.length > c.ibCapacity := by
    bv_omega
  exact ⟨by omega, hfits, deviceTcpInput_fits env s hstate hflags hfits⟩

end Device

/-- A device that has heard of nothing but the SYN when it sends three bytes. -/
def heardSyn (_ : List Event) : List Obs :=
  (run slowClient ⟨.active, 2, 0, 0⟩ 1 62078 blankInBuf []).1.trace

theorem three_le_devMru : ([1, 2, 3] : List UInt8).length ≤ devMru := by decide

/-- The SYN/ACK and three bytes. -/
def openingExchange : List Event :=
  [.tcp ⟨62078, 1, 0, 1, thSyn ||| thAck, 2⟩ ⟨[], Nat.zero_le devMru⟩,
    .tcp ⟨62078, 1, 1, 1, thAck, 2⟩ ⟨[1, 2, 3], three_le_devMru⟩]

theorem heardSyn_conforms :
    Conforms slowClient ⟨.active, 2, 0, 0⟩ 1 62078 blankInBuf heardSyn openingExchange where
  sofar pre hpre := by
    rw [openingExchange, prefix_cons_iff] at hpre
    rcases hpre with rfl | ⟨pre1, rfl, hpre⟩
    · exact prefix_rfl
    · rw [prefix_cons_iff] at hpre
      rcases hpre with rfl | ⟨pre2, rfl, hpre⟩
      · exact ⟨_, rfl⟩
      · obtain rfl := prefix_nil.mp hpre
        exact ⟨_, rfl⟩
  keeps _ _ _ := prefix_rfl
  within pre th payload hpre := by
    refine ⟨⟨_, mem_singleton_self _⟩, ?_⟩
    rw [openingExchange] at hpre
    cases pre with
    | nil =>
      obtain ⟨he, -⟩ := cons_prefix_cons.mp hpre
      rw [(Event.tcp.inj he).2]
      exact Nat.zero_le _
    | cons e1 pre =>
      rw [cons_append, cons_prefix_cons] at hpre
      obtain ⟨rfl, hpre⟩ := hpre
      cases pre with
      | nil =>
        obtain ⟨he, -⟩ := cons_prefix_cons.mp hpre
        rw [(Event.tcp.inj he).2]
        show 3 ≤ _
        decide +kernel
      | cons e2 pre =>
        rw [cons_append, cons_prefix_cons] at hpre
        exact absurd (prefix_nil.mp hpre.2) (by simp)

theorem conforming_device_accepted_opening :
    acceptedBytes (run slowClient ⟨.active, 2, 0, 0⟩ 1 62078 blankInBuf
      openingExchange).1.trace = [1, 2, 3] :=
  (conforming_device_accepted slowClient ⟨.active, 2, 0, 0⟩ 1 62078 blankInBuf heardSyn
    openingExchange heardSyn_conforms
    [.tcp ⟨62078, 1, 0, 1, thSyn ||| thAck, 2⟩ ⟨[], by simp⟩] ⟨62078, 1, 1, 1, thAck, 2⟩
    ⟨[1, 2, 3], by simp [devMru]⟩ prefix_rfl _ rfl rfl rfl).2.2.1

end IDeviceStack.Usbmuxd
