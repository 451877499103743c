/-
# `Usbmuxd.UsbSend` — who owns the buffer of a packet

`send_packet` allocates a buffer and hands it to `usb_send`, which submits it as a transfer; a
packet that fills its last USB packet is followed by an empty transfer.  `tx_callback` frees the
buffer of a transfer that has come to an end, `send_packet` the one that `usb_send` did not take.

* Buffers are numbered as they are allocated, and `released` lists every call of `free`.
* Allocation succeeds, and the results of the two submissions are arguments of a call.

**Proved here.**  `allOrNothing`, `allOrNothing_refuted`.
-/
import Mathlib.Data.List.Chain
import Mathlib.Data.List.Perm.Basic
import IDeviceStack.Usbmuxd.Connection

namespace IDeviceStack.Usbmuxd

/-! ## The calls -/

/-- A packet that was submitted, with the sequence number that it carries. -/
structure Submission where
  proto : MuxProtocol
  total : Nat
  txSeq : Option U16
  deriving DecidableEq, Repr

/-- A device, its endpoint, and the buffers of its transfers. -/
structure UsbTx where
  dev : MuxDevice
  wMaxPacketSize : Nat
  alive : Bool
  /-- `tx_xfers`: the buffers of the transfers. -/
  txXfers : List Nat
  allocated : Nat
  released : List Nat
  submitted : List Submission
  wMaxPacketSize_pos : 0 < wMaxPacketSize

/-- What `libusb_submit_transfer` returns for the packet and for the empty transfer. -/
structure SubmitResults where
  packet : Int
  zlp : Int

namespace UsbTx

def usbSend (s : UsbTx) (buf : Nat) (packet : Submission) (x : SubmitResults) : UsbTx × Int :=
  if x.packet < 0 then (s, x.packet)
  else
    let s := { s with txXfers := s.txXfers ++ [buf], submitted := s.submitted ++ [packet] }
    if packet.total % s.wMaxPacketSize = 0 then
      let buffer := s.allocated
      let s := { s with allocated := buffer + 1 }
      if x.zlp < 0 then (s, x.zlp) else ({ s with txXfers := s.txXfers ++ [buffer] }, 0)
    else (s, 0)

/-- The whole length of a packet, if it can be sent. -/
def totalOf (dev : MuxDevice) (proto : MuxProtocol) (length : Nat) : Option Nat :=
  (hdrlenOf proto).bind fun hdrlen =>
    let total := muxHeaderSize dev + hdrlen + length
    if total > usbMtu then none else some total

def sendPacket (s : UsbTx) (proto : MuxProtocol) (length : Nat) (x : SubmitResults) : UsbTx × Int :=
  match totalOf s.dev proto length with
  | none => (s, -1)
  | some total =>
    let buffer := s.allocated
    let s := { s with allocated := buffer + 1 }
    let stamped := stampSeqs s.dev proto
    let txSeq := if s.dev.version < 2 then none else some stamped.txSeq
    let dev := if s.dev.version < 2 then s.dev else { stamped with txSeq := stamped.txSeq + 1 }
    let (s, res) := usbSend { s with dev } buffer ⟨proto, total, txSeq⟩ x
    if res < 0 then ({ s with released := s.released ++ [buffer] }, res) else (s, total)

/-- `tx_callback` for the `i`-th transfer. -/
def txCallback (s : UsbTx) (i : Nat) (completed : Bool) : UsbTx :=
  match s.txXfers[i]? with
  | none => s
  | some buffer =>
    { s with
      alive := s.alive && completed
      txXfers := s.txXfers.eraseIdx i
      released := s.released ++ [buffer] }

end UsbTx

/-- A call of `send_packet`, or a transfer that has come to an end. -/
inductive TxEvent where
  | send (proto : MuxProtocol) (length : Nat) (x : SubmitResults)
  | callback (i : Nat) (completed : Bool)

def TxEvent.apply (s : UsbTx) : TxEvent → UsbTx
  | .send proto length x => (s.sendPacket proto length x).1
  | .callback i completed => s.txCallback i completed

/-! ## What is to hold -/

/-- A packet follows the one before it; a setup packet starts anew. -/
def Submission.Next (p q : Submission) : Prop :=
  q.proto = .setup ∨ ∃ n, p.txSeq = some n ∧ q.txSeq = some (n + 1)

namespace UsbTx

/-- A packet that is not sent has submitted nothing. -/
def Atomic (s : UsbTx) (e : TxEvent) : Prop :=
  match e with
  | .send proto length x => (s.sendPacket proto length x).2 < 0 →
      (s.sendPacket proto length x).1.txXfers = s.txXfers ∧
        (s.sendPacket proto length x).1.submitted = s.submitted
  | .callback _ _ => True

/-- Every buffer is in one transfer, or was released once; the numbers have no gap. -/
structure Clean (s : UsbTx) : Prop where
  owned : (s.txXfers ++ s.released).Perm (List.range s.allocated)
  gapless : 2 ≤ s.dev.version → s.submitted.IsChain Submission.Next

/-- A device that nothing was sent to. -/
def Fresh (s : UsbTx) : Prop :=
  s.txXfers = [] ∧ s.released = [] ∧ s.allocated = 0 ∧ s.submitted = []

/-- A packet that can be sent is submitted, if it is numbered, and so is what follows it. -/
def Accepts (s : UsbTx) : TxEvent → Prop
  | .send proto length x => ∀ total, totalOf s.dev proto length = some total →
      (2 ≤ s.dev.version → 0 ≤ x.packet) ∧
        (0 ≤ x.packet → total % s.wMaxPacketSize = 0 → 0 ≤ x.zlp)
  | .callback _ _ => True

/-- The states that are reached while everything is accepted. -/
inductive Run : UsbTx → Prop
  | start {s : UsbTx} : s.Fresh → Run s
  | step {s : UsbTx} (e : TxEvent) : Run s → s.Accepts e → Run (e.apply s)

/-! ## One step -/

variable {s : UsbTx} {e : TxEvent}

/-- The last number that was submitted is the one before the next. -/
structure Numbered (s : UsbTx) : Prop extends s.Clean where
  last : 2 ≤ s.dev.version → ∀ p ∈ s.submitted.getLast?, ∃ n, p.txSeq = some n ∧ s.dev.txSeq = n + 1

theorem Fresh.numbered (h : s.Fresh) : s.Numbered := by
  obtain ⟨hx, hr, ha, hs⟩ := h
  refine ⟨⟨?_, fun _ => ?_⟩, fun _ p hp => ?_⟩
  · rw [hx, hr, ha]
    exact .refl _
  · rw [hs]
    exact .nil
  · rw [hs] at hp
    cases hp

theorem Numbered.txCallback (h : s.Numbered) (i : Nat) (completed : Bool) :
    (s.txCallback i completed).Numbered := by
  unfold UsbTx.txCallback
  split
  · exact h
  · next buffer hbuffer =>
    refine ⟨⟨?_, h.gapless⟩, h.last⟩
    obtain ⟨hi, rfl⟩ := List.getElem?_eq_some_iff.mp hbuffer
    have hmoved : (s.txXfers.eraseIdx i ++ (s.released ++ [s.txXfers[i]])).Perm
        (s.txXfers[i] :: s.txXfers.eraseIdx i ++ s.released) := by
      rw [← List.append_assoc]
      exact List.perm_append_singleton _ _
    exact (hmoved.trans ((List.getElem_cons_eraseIdx_perm hi).append_right _)).trans h.owned

theorem perm_range_succ {xs ys : List Nat} {n : Nat} (h : (xs ++ ys).Perm (List.range n)) :
    (xs ++ [n] ++ ys).Perm (List.range (n + 1)) ∧ (xs ++ (ys ++ [n])).Perm (List.range (n + 1)) := by
  rw [List.range_succ, ← List.append_assoc]
  refine ⟨?_, h.append_right _⟩
  rw [List.append_assoc]
  exact ((List.perm_append_comm.append_left xs).trans (by rw [List.append_assoc])).trans
    (h.append_right [n])

/-- The state behind a packet that was submitted. -/
def submit (s : UsbTx) (proto : MuxProtocol) (total : Nat) : UsbTx :=
  { s with
    dev := if s.dev.version < 2 then s.dev
      else { stampSeqs s.dev proto with txSeq := (stampSeqs s.dev proto).txSeq + 1 }
    txXfers := s.txXfers ++ [s.allocated]
    allocated := s.allocated + 1
    submitted := s.submitted ++ [⟨proto, total,
      if s.dev.version < 2 then none else some (stampSeqs s.dev proto).txSeq⟩] }

theorem Numbered.submit (h : s.Numbered) (proto : MuxProtocol) (total : Nat) :
    (s.submit proto total).Numbered := by
  have hversion : (s.submit proto total).dev.version = s.dev.version := by
    unfold UsbTx.submit stampSeqs
    dsimp only
    split <;> [rfl; split <;> rfl]
  refine ⟨⟨(perm_range_succ h.owned).1, fun hv => ?_⟩, fun hv p hp => ?_⟩
  · rw [hversion] at hv
    refine List.isChain_append.mpr ⟨h.gapless hv, .singleton _, fun p hp q hq => ?_⟩
    obtain rfl := Option.some.inj hq
    by_cases hsetup : proto = .setup
    · exact .inl hsetup
    · obtain ⟨n, hn, hnext⟩ := h.last hv p hp
      refine .inr ⟨n, hn, ?_⟩
      dsimp only
      rw [if_neg (Nat.not_lt.mpr hv), stampSeqs, if_neg hsetup, hnext]
  · rw [hversion] at hv
    rw [UsbTx.submit, List.getLast?_concat] at hp
    obtain rfl := Option.some.inj hp
    refine ⟨_, if_neg (Nat.not_lt.mpr hv), ?_⟩
    dsimp only [UsbTx.submit]
    rw [if_neg (Nat.not_lt.mpr hv)]

/-- **One packet.**  What is accepted is sent, and what is not leaves no trace. -/
theorem sendPacket_spec (h : s.Numbered) {proto : MuxProtocol} {length : Nat} {x : SubmitResults}
    (hx : s.Accepts (.send proto length x)) :
    s.Atomic (.send proto length x) ∧ (s.sendPacket proto length x).1.Numbered := by
  cases htotal : totalOf s.dev proto length with
  | none =>
    simp only [Atomic, UsbTx.sendPacket, htotal]
    exact ⟨fun _ => ⟨trivial, trivial⟩, h⟩
  | some total =>
    obtain ⟨hfirst, hzlp⟩ := hx total htotal
    by_cases hpacket : x.packet < 0
    · have hv : s.dev.version < 2 := by
        by_contra hv
        exact absurd (hfirst (Nat.not_lt.mp hv)) (Int.not_le.mpr hpacket)
      simp only [Atomic, UsbTx.sendPacket, htotal, usbSend, if_pos hpacket, if_pos hv]
      exact ⟨fun _ => ⟨trivial, trivial⟩, ⟨⟨(perm_range_succ h.owned).2, h.gapless⟩, h.last⟩⟩
    · have hsubmit := h.submit proto total
      simp only [Atomic, UsbTx.sendPacket, htotal, usbSend, if_neg hpacket]
      by_cases hfull : total % s.wMaxPacketSize = 0
      · have hz : ¬ x.zlp < 0 := Int.not_lt.mpr (hzlp (Int.not_lt.mp hpacket) hfull)
        simp only [if_pos hfull, if_neg hz, Int.lt_irrefl, if_false]
        refine ⟨fun hneg => absurd hneg (Int.not_lt.mpr (Int.natCast_nonneg total)), ?_⟩
        exact ⟨⟨(perm_range_succ hsubmit.owned).1, hsubmit.gapless⟩, hsubmit.last⟩
      · simp only [if_neg hfull, Int.lt_irrefl, if_false]
        exact ⟨fun hneg => absurd hneg (Int.not_lt.mpr (Int.natCast_nonneg total)), hsubmit⟩

/-- **All or nothing.**  In a run where everything is accepted, a packet that was not sent has
submitted nothing, every buffer has one owner or was released once, and no number is missing. -/
theorem allOrNothing (h : s.Run) : s.Clean ∧ ∀ e, s.Accepts e → s.Atomic e := by
  have hnumbered : s.Numbered := by
    induction h with
    | start hfresh => exact hfresh.numbered
    | step e _ haccepts ih =>
      cases e with
      | send proto length x => exact (sendPacket_spec ih haccepts).2
      | callback i completed => exact ih.txCallback i completed
  refine ⟨hnumbered.toClean, fun e haccepts => ?_⟩
  cases e with
  | send proto length x => exact (sendPacket_spec hnumbered haccepts).1
  | callback i completed => trivial

/-- A device of protocol version 2 with USB packets of four bytes. -/
def small : UsbTx := ⟨⟨.active, 2, 0, 0⟩, 4, true, [], 0, [], [], by decide⟩

theorem fresh_small : small.Fresh := ⟨rfl, rfl, rfl, rfl⟩

/-- A setup packet with the empty transfer behind it, and the end of the first transfer. -/
theorem allOrNothing_run :
    ((TxEvent.callback 0 true).apply ((TxEvent.send .setup 0 ⟨0, 0⟩).apply small)).Clean :=
  have hsent := (Run.start fresh_small).step (.send .setup 0 ⟨0, 0⟩)
    fun _ _ => ⟨fun _ => by decide, fun _ _ => by decide⟩
  (allOrNothing (hsent.step (.callback 0 true) trivial)).1

/-- Where the empty transfer is refused, the packet is submitted, `send_packet` fails, and its
buffer is released again when the transfer ends. -/
theorem allOrNothing_refuted : small.Fresh ∧ ¬ small.Atomic (.send .setup 0 ⟨0, -1⟩) ∧
    ((TxEvent.callback 0 true).apply ((TxEvent.send .setup 0 ⟨0, -1⟩).apply small)).released =
      [0, 0] := by
  refine ⟨fresh_small, fun h => ?_, by decide⟩
  exact absurd (h (by decide)).1 (by decide)

end UsbTx

end IDeviceStack.Usbmuxd
