/-
# `Libusbmuxd.Conversation` — from the daemon to the library

`send_pkt` of the daemon queues packets, `process_send` writes as much of them as the socket takes,
and `receive_packet` of the library reads them one by one.

**Proved here.**  `receivePackets_queued`.
-/
import IDeviceStack.Libusbmuxd.ReceivePacket
import IDeviceStack.Usbmuxd.Framing

namespace IDeviceStack.Libusbmuxd

open Lib Libplist.Xplist
open Usbmuxd hiding Received

variable {conv : Conv} {p rest : List UInt8} {ps : List (List UInt8)} {s : Socket}

/-! ## One packet -/

/-- The header of the packet says how long it is. -/
structure Framed (p : List UInt8) : Prop where
  header : sizeofHeader ≤ p.length
  length : (UsbmuxdHeader.ofBytes p).length.toNat = p.length

/-- What the library makes of a packet. -/
def packetIn (conv : Conv) (p : List UInt8) : Received :=
  packetOf conv (.ofBytes p) (p.drop sizeofHeader)

theorem ofBytes_take (p : List UInt8) :
    UsbmuxdHeader.ofBytes (p.take sizeofHeader) = .ofBytes p := by
  simp only [UsbmuxdHeader.ofBytes, wordAt, sizeofHeader, List.drop_take, List.take_take]
  norm_num

/-- The header is whole in the segment at the front. -/
def HeaderWhole (s : Socket) : Prop :=
  ∃ b more arrivals, s.arrivals = .segment b more :: arrivals ∧ sizeofHeader ≤ (b :: more).length

theorem receiveBody_framed (hp : Framed p) (hs : s.stream = p.drop sizeofHeader ++ rest) :
    (receiveBody conv s (.ofBytes p)).1 = packetIn conv p ∧
      (receiveBody conv s (.ofBytes p)).2.stream = rest := by
  obtain ⟨arrivals, closed⟩ := s
  have hsize : (p.drop sizeofHeader).length = p.length - sizeofHeader := List.length_drop
  rw [receiveBody, payloadSize_toNat (hp.header.trans_eq hp.length.symm), hp.length, ← hsize]
  dsimp only
  split
  · next hpos =>
    obtain ⟨hdone, hleft, -⟩ := (receivePayload_result (Nat.lt_succ_self arrivals.length) hpos
      closed []).complete (by rw [hs, List.length_append]; omega)
    rw [hs, List.take_left, List.nil_append] at hdone
    rw [hs, List.drop_left] at hleft
    generalize receivePayload (arrivals.length + 1) ⟨arrivals, closed⟩ _ [] = r at hdone hleft ⊢
    obtain ⟨r, left⟩ := r
    obtain rfl : r = _ := hdone
    exact ⟨rfl, hleft⟩
  · next hzero =>
    have hnil : p.drop sizeofHeader = [] := List.eq_nil_of_length_eq_zero (by omega)
    rw [packetIn, hnil]
    exact ⟨rfl, hs.trans (by rw [hnil, List.nil_append])⟩

theorem receivePacket_framed (hp : Framed p) (hwhole : HeaderWhole s)
    (hs : s.stream = p ++ rest) : (receivePacket conv s).1 = packetIn conv p ∧
      (receivePacket conv s).2.stream = rest := by
  obtain ⟨arrivals, closed⟩ := s
  obtain ⟨b, more, arrivals, rfl, hwhole⟩ := hwhole
  have hstream : b :: more ++ delivered arrivals = p ++ rest := hs
  have htake : (b :: more).take sizeofHeader = p.take sizeofHeader := by
    rw [← List.take_append_of_le_length hwhole, hstream, List.take_append_of_le_length hp.header]
  rw [receivePacket, socketReceive_segment]
  dsimp only
  rw [if_neg (by rw [List.length_take]; omega), htake, ofBytes_take]
  refine receiveBody_framed hp ((delivered_putBack _ _).trans ?_)
  rw [← List.drop_append_of_le_length hwhole, hstream, List.drop_append_of_le_length hp.header]

/-! ## Many -/

/-- What so many calls of `receive_packet` return. -/
def receivePackets (conv : Conv) : Nat → Socket → List Received
  | 0, _ => []
  | n + 1, s => (receivePacket conv s).1 :: receivePackets conv n (receivePacket conv s).2

/-- Each of the calls finds its header whole. -/
def HeadersWhole (conv : Conv) : Nat → Socket → Prop
  | 0, _ => True
  | n + 1, s => HeaderWhole s ∧ HeadersWhole conv n (receivePacket conv s).2

theorem receivePackets_framed (hps : ∀ p ∈ ps, Framed p) (hwhole : HeadersWhole conv ps.length s)
    (hs : s.stream = ps.flatten ++ rest) :
    receivePackets conv ps.length s = ps.map (packetIn conv) := by
  induction ps generalizing s with
  | nil => rfl
  | cons p ps ih =>
    obtain ⟨hp, hps⟩ := List.forall_mem_cons.mp hps
    rw [List.flatten_cons, List.append_assoc] at hs
    obtain ⟨hfirst, hleft⟩ := @receivePacket_framed conv p _ s hp hwhole.1 hs
    rw [List.length_cons, receivePackets, hfirst, ih hps hwhole.2 hleft, List.map_cons]

/-! ## The daemon -/

variable {ρ : Type} {w w' : Dialogue ρ}

theorem framed_bytes (r : Reply) (protoVersion : Nat) : Framed (r.bytes protoVersion) := by
  have hshort := r.short
  have hlen : (r.bytes protoVersion).length = r.length := r.length_bytes protoVersion
  have hlt : r.length < 2 ^ 32 := by
    rw [Reply.length, sizeofUsbmuxdHeader]
    omega
  refine ⟨by rw [hlen, Reply.length]; exact Nat.le_add_right _ _, ?_⟩
  have hword : (r.bytes protoVersion).take 4 = leBytes 4 r.length := by
    simp only [Reply.bytes, List.append_assoc]
    exact List.take_left' (length_leBytes ..)
  rw [hlen]
  simp only [UsbmuxdHeader.ofBytes, wordAt, List.drop_zero, hword]
  rw [leVal_leBytes hlt, UInt32.toNat_ofNat_of_lt' hlt]

/-- The packets that were queued are packets. -/
def QueuesFramed (w : Dialogue ρ) : Prop := ∀ p ∈ w.queued, Framed p

theorem QueuesFramed.queue (h : QueuesFramed w) {r : Reply} (hq : w.queue r = some w') :
    QueuesFramed w' := by
  obtain ⟨⟨c, done⟩, -, rfl⟩ := Option.map_eq_some_iff.mp hq
  intro p hp
  cases done with
  | false => exact h p hp
  | true =>
    rcases List.mem_append.mp hp with hp | hp
    · exact h p hp
    · rw [List.mem_singleton.mp hp]
      exact framed_bytes r _

theorem QueuesFramed.queueAll {rs : List Reply} (h : QueuesFramed w)
    (hq : w.queueAll rs = some w') : QueuesFramed w' := by
  induction rs generalizing w with
  | nil =>
    cases hq
    exact h
  | cons r rs ih =>
    obtain ⟨w1, hw1, hrest⟩ := Option.bind_eq_some_iff.mp hq
    exact ih (h.queue hw1) hrest

theorem intake_queued (w : Dialogue ρ) (k : Nat) : (w.intake k).1.queued = w.queued := by
  rw [Dialogue.intake]
  split <;> rfl

theorem QueuesFramed.step {command : Command ρ} {e : DialogueEvent} (h : QueuesFramed w)
    (hstep : w.step command e = some w') : QueuesFramed w' := by
  cases e with
  | recv k =>
    rw [Dialogue.step] at hstep
    split at hstep
    · cases hstep
      exact h
    · have hin : QueuesFramed (w.intake k).1 := fun p hp => h p (intake_queued w k ▸ hp)
      rw [Dialogue.recv] at hstep
      split at hstep
      · next w1 heq =>
        cases hstep
        rwa [heq] at hin
      · next w1 bytes heq =>
        obtain ⟨w2, hw2, rfl⟩ := Option.map_eq_some_iff.mp hstep
        rw [heq] at hin
        have hqueued : QueuesFramed w2 :=
          QueuesFramed.queueAll (w := w1.invoke command bytes) hin hw2
        exact hqueued
  | send k =>
    obtain ⟨r, -, rfl⟩ := Option.map_eq_some_iff.mp hstep
    exact h
  | queue r => exact h.queue hstep

theorem QueuesFramed.run {command : Command ρ} {events : List DialogueEvent} (h : QueuesFramed w)
    (hrun : w.run command events = some w') : QueuesFramed w' := by
  induction events generalizing w with
  | nil =>
    cases hrun
    exact h
  | cons e events ih =>
    obtain ⟨w1, hw1, hrest⟩ := Option.bind_eq_some_iff.mp hrun
    exact ih (h.step hw1) hrest

/-- **From the daemon to the library.**  The messages of the client are whole, and it stays in
`CLIENT_COMMAND`.  In whatever order the daemon then receives, queues and sends, without a packet
that does not fit its out-buffer, and however the socket cuts what was sent, calls of
`receive_packet` return what it makes of the packets, in the order in which they were queued, as long
as no header is cut; it is called again also where it stopped at a packet. -/
theorem receivePackets_queued (conv : Conv) (command : Command ρ) (keeps : ρ)
    {ibBuf obBuf : List UInt8} (hib : ibBuf.length = cmdBufSize) (hob : obBuf.length = replyBufSize)
    {msgs : List (List UInt8)} (hmsgs : ∀ m ∈ msgs, IsMessage m) {events : List DialogueEvent}
    (hrun : (Dialogue.start ibBuf obBuf keeps msgs.flatten).run command events = some w)
    {ps more : List (List UInt8)} (hqueued : w.queued = ps ++ more)
    (hsent : ps.flatten.length ≤ w.sent.length) {s : Socket} (hs : s.stream = w.sent)
    (hwhole : HeadersWhole conv ps.length s) :
    receivePackets conv ps.length s = ps.map (packetIn conv) := by
  obtain ⟨hfits, hnot⟩ := Dialogue.run_spec msgs hmsgs command events
    (InGood.start hib obBuf keeps hmsgs) (OutGood.start ibBuf hob keeps msgs.flatten)
  have hall : (Dialogue.start ibBuf obBuf keeps msgs.flatten).Fits command events :=
    by_contra fun h => by simp [hnot h] at hrun
  obtain ⟨w', hrun', -, hout, -⟩ := hfits hall
  obtain rfl : w' = w := Option.some.inj (hrun'.symm.trans hrun)
  have hframed : QueuesFramed w' := QueuesFramed.run (w := Dialogue.start ..) (by rintro _ ⟨⟩) hrun
  have hall := hout.out
  rw [hqueued, List.flatten_append] at hall
  obtain ⟨rest, hrest⟩ := (List.prefix_of_prefix_length_le ⟨_, rfl⟩ ⟨_, hall⟩ hsent : _ <+: w'.sent)
  refine receivePackets_framed (fun p hp => hframed p ?_) hwhole (hs.trans hrest.symm)
  rw [hqueued]
  exact List.mem_append_left _ hp

/-- `send_result`, with the tag 1 and `RESULT_OK`. -/
def resultOk : Reply := ⟨1, 1, [0, 0, 0, 0], by decide, true⟩

/-- It is queued behind what was sent, and sent. -/
theorem run_resultOk (w : Dialogue ρ) (command : Command ρ) (events : List DialogueEvent)
    (hob : w.client.obBuf.length = replyBufSize) (hsize : w.client.obSize = 0)
    (hcap : w.client.obCapacity = replyBufSize) (hstate : w.client.state = .command)
    (hproto : w.client.protoVersion = 0) :
    ∃ w' : Dialogue ρ,
      w.run command (.queue resultOk :: .send 99 :: events) = w'.run command events ∧
      w'.client.obBuf.length = replyBufSize ∧ w'.client.obSize = 0 ∧
      w'.client.obCapacity = replyBufSize ∧ w'.client.state = .command ∧
      w'.client.protoVersion = 0 ∧ w'.queued = w.queued ++ [resultOk.bytes 0] ∧
      w'.sent = w.sent ++ resultOk.bytes 0 := by
  obtain ⟨⟨state, proto, ibBuf, ibSize, ibCapacity, obBuf, obSize, obCapacity, pollout⟩, keeps,
    stream, invoked, queued, sent⟩ := w
  obtain ⟨rfl, rfl, rfl, rfl⟩ : obSize = 0 ∧ obCapacity = replyBufSize ∧ state = .command ∧
    proto = 0 := ⟨hsize, hcap, hstate, hproto⟩
  have hroom : 0 + (resultOk.bytes 0).length ≤ obBuf.length := hob.symm ▸ by decide
  have hsend : sendPkt ⟨.command, 0, ibBuf, ibSize, ibCapacity, obBuf, 0, replyBufSize, pollout⟩
      resultOk = some (_, true) :=
    (if_neg (show ¬ replyBufSize - 0 < 20 by decide)).trans (congrArg _ (if_pos hroom))
  refine ⟨?w, ?run, ?rest⟩
  case run =>
    rw [Dialogue.run, Dialogue.step, Dialogue.queue, hsend]
    rfl
  case rest =>
    exact ⟨(length_memcpy hroom).trans hob, rfl, rfl, rfl, rfl, rfl,
      congrArg (sent ++ ·) (take_memcpy hroom)⟩

/-- Two are queued, sent and received, the first one with the header of the second. -/
theorem receivePackets_queued_results : ∃ w,
    (Dialogue.start (List.replicate cmdBufSize 0) (List.replicate replyBufSize 0) () [].flatten).run
      (fun _ _ => ((), [])) [.queue resultOk, .send 99, .queue resultOk, .send 99] = some w ∧
    ∀ conv, receivePackets conv 2
        ⟨putBack (w.sent.take 36) (putBack (w.sent.drop 36) []), false⟩ =
      [.returned 20 ⟨20, 0, 1, 1⟩ (.bytes [0, 0, 0, 0]),
        .returned 20 ⟨20, 0, 1, 1⟩ (.bytes [0, 0, 0, 0])] := by
  obtain ⟨w1, hrun1, hob, hsize, hcap, hstate, hproto, hqueued1, hsent1⟩ :=
    run_resultOk (Dialogue.start (List.replicate cmdBufSize 0) (List.replicate replyBufSize 0) ()
      [].flatten) (fun _ _ => ((), [])) [.queue resultOk, .send 99] List.length_replicate rfl rfl
      rfl rfl
  obtain ⟨w, hrun, -, -, -, -, -, hqueued, hsent⟩ :=
    run_resultOk w1 (fun _ _ => ((), [])) [] hob hsize hcap hstate hproto
  have hw := hrun1.trans hrun
  rw [hqueued1] at hqueued
  rw [hsent1] at hsent
  have hs : Socket.stream ⟨putBack (w.sent.take 36) (putBack (w.sent.drop 36) []), false⟩ =
      w.sent := by
    rw [hsent]
    rfl
  refine ⟨w, hw, fun conv => receivePackets_queued conv _ () List.length_replicate
    List.length_replicate (by simp) hw (hqueued.trans (List.append_nil _).symm)
    (by rw [hsent]; decide) hs ?_⟩
  rw [hsent]
  exact ⟨⟨_, _, _, rfl, by decide⟩, ⟨_, _, _, rfl, by decide⟩, trivial⟩

end IDeviceStack.Libusbmuxd
