/-
# `Usbmuxd.Stream` — the two byte streams of a mux connection

What a connection is for, read off its trace alone:

    device → client   the bytes the client's socket has taken are a prefix of the
                      payloads accepted from the device, in order, and what is missing
                      is exactly the contents of the in-buffer
    client → device   the payloads of the segments sent are the bytes read from the
                      client's socket, in order, each segment numbered by the bytes
                      before it and inside the window the device last advertised

Every property that speaks about the moment of sending is an `EachAt` over the
trace: it names the acknowledgement and the window the device last sent
(`peerAck`, `peerWin`) and the bytes moved so far, not the fields of the
connection that cache them.

The invariant is split in two.  `Ready` is what any function may rely on that
still has the connection in its hands, in the middle of an event as well;
`Live` adds what holds between events.  `TraceOk` is what survives the
connection.
-/
import Mathlib.Data.List.Infix
import IDeviceStack.Usbmuxd.Connection

namespace IDeviceStack.Usbmuxd

open Lib List

/-! ## Reading a trace -/

/-- The bytes an observation adds to the stream into the client's socket. -/
def Obs.written : Obs → List UInt8
  | .clientWrote bs => bs
  | _ => []

def Obs.acceptedBytes : Obs → List UInt8
  | .accepted bs => bs
  | _ => []

def Obs.readBytes : Obs → List UInt8
  | .clientRead bs => bs
  | _ => []

/-- Only a packet that `usb_send` took counts as sent. -/
def Obs.sentBytes : Obs → List UInt8
  | .packetOut p true => p.data
  | _ => []

abbrev written (t : List Obs) : List UInt8 := t.flatMap Obs.written
abbrev acceptedBytes (t : List Obs) : List UInt8 := t.flatMap Obs.acceptedBytes
abbrev readBytes (t : List Obs) : List UInt8 := t.flatMap Obs.readBytes
abbrev sentBytes (t : List Obs) : List UInt8 := t.flatMap Obs.sentBytes

/-- Has the device answered the SYN with a SYN/ACK? -/
def established (t : List Obs) : Bool :=
  t.any fun o => match o with
    | .segIn th => th.flags == thSyn ||| thAck
    | _ => false

/-- The acknowledgement and the window (in bytes) of the last segment from the device. -/
def peer (t : List Obs) : U32 × U32 :=
  t.foldl (fun last o => match o with
    | .segIn th => (th.ack, th.win.zeroExtend 32 <<< 8)
    | _ => last) (0, 0)

def peerAck (t : List Obs) : U32 := (peer t).1
def peerWin (t : List Obs) : U32 := (peer t).2

section Snoc

variable (t : List Obs) (o : Obs)

@[simp] theorem established_snoc_segIn (th : Tcphdr) :
    established (t ++ [.segIn th]) = (established t || th.flags == thSyn ||| thAck) := by
  simp [established]

@[simp] theorem peer_snoc_segIn (th : Tcphdr) :
    peer (t ++ [.segIn th]) = (th.ack, th.win.zeroExtend 32 <<< 8) := by
  simp [peer]

theorem peer_snoc_of_ne (h : ∀ th, o ≠ .segIn th) :
    peer (t ++ [o]) = peer t ∧ established (t ++ [o]) = established t := by
  cases o with
  | segIn th => exact absurd rfl (h th)
  | _ => simp [peer, established]

end Snoc

/-! ## What every packet satisfies when it is handed over -/

/-- A packet `p` of the connection, against the trace before it. -/
structure PacketOk (pre : List Obs) (p : MuxPacket) (th : Tcphdr) : Prop where
  /-- Mux header, TCP header and payload fit in one USB transfer. -/
  fits : p.length ≤ usbMtu
  /-- No byte is acknowledged that the client's socket has not taken. -/
  ack : established pre = true → th.ack = 1 + BitVec.ofNat 32 (written pre).length
  /-- A segment with a payload is numbered by the payload bytes before it ... -/
  seq : p.data ≠ [] → th.seq = 1 + BitVec.ofNat 32 (sentBytes pre).length
  /-- ... carries the bytes read from the client since, ... -/
  stream : p.data ≠ [] → readBytes pre = sentBytes pre ++ p.data
  /-- ... and ends inside the window the device last advertised. -/
  window : p.data ≠ [] →
    th.seq + BitVec.ofNat 32 p.data.length - peerAck pre ≤ peerWin pre

/-- The rule for one observation. -/
def ObsOk (pre : List Obs) : Obs → Prop
  | .packetOut p _ => ∃ th, p.header = .tcp th ∧ PacketOk pre p th
  | .mtuRefusal => False
  | _ => True

/-- What the trace of a connection satisfies, torn down or not. -/
structure TraceOk (t : List Obs) : Prop where
  each : EachAt ObsOk t
  pfx : written t <+: acceptedBytes t

/-! ## The invariant of a connection -/

/-- What holds whenever a function has the connection in its hands. -/
structure Ready (s : Sys) (c : MuxConnection) : Prop where
  trace : TraceOk s.trace
  buf : c.ibBuf.length = connInbufSize
  fill : c.ibSize.toNat ≤ connInbufSize
  stream : written s.trace ++ c.ib = acceptedBytes s.trace
  ack : established s.trace = true → c.txAck = 1 + BitVec.ofNat 32 (written s.trace).length

/-- The sizes fixed when the connection was opened. -/
structure Caps (c : MuxConnection) : Prop where
  inCap : c.ibCapacity = BitVec.ofNat 32 connInbufSize
  payload : c.maxPayload = BitVec.ofNat 32 (usbMtu - sizeofMuxHeader - sizeofTcphdr)

/-- The connection is waiting for the SYN/ACK, or it is open. -/
def Phase (s : Sys) (c : MuxConnection) : Prop :=
  c.state = .connecting ∧ established s.trace = false ∧ c.txSeq = 0 ∧ c.txAck = 0 ∧
      c.rxWin = 0 ∧ c.ibSize = 0 ∧ written s.trace = [] ∧ sentBytes s.trace = [] ∨
    c.state = .connected ∧ established s.trace = true ∧
      c.txSeq = 1 + BitVec.ofNat 32 (sentBytes s.trace).length

/-- What holds when an event has been dealt with, up to the cached flags. -/
structure Steady (s : Sys) (c : MuxConnection) : Prop extends Ready s c where
  caps : Caps c
  peerSeen : peer s.trace = (c.rxAck, c.rxWin)
  read : readBytes s.trace = sentBytes s.trace
  phase : Phase s c

/-- What holds between two events. -/
structure Live (s : Sys) (c : MuxConnection) : Prop extends Steady s c where
  sendable : c.sendable = sendableOf c

/-- The state of a run: the invariant while the connection is there, and an acceptable
trace whatever became of it. -/
def Good (w : Sys × Slot) : Prop :=
  match w.2 with
  | .live c => Live w.1 c
  | _ => TraceOk w.1.trace

/-! ## Arithmetic of the send window -/

theorem toNat_cap_le (x cap : U32) :
    (if x > cap then cap else x).toNat ≤ x.toNat ∧
      (if x > cap then cap else x).toNat ≤ cap.toNat := by
  split <;> bv_omega

theorem sendableOf_le_maxPayload (c : MuxConnection) : (sendableOf c).toNat ≤ c.maxPayload.toNat :=
  (toNat_cap_le _ _).2

theorem sendableOf_le_window (c : MuxConnection) :
    (sendableOf c).toNat ≤
      (if c.rxWin > c.txSeq - c.rxAck then c.rxWin - (c.txSeq - c.rxAck) else 0).toNat :=
  (toNat_cap_le _ _).1.trans (toNat_cap_le _ _).1

variable {c : MuxConnection}

/-- A segment no longer than `sendable` ends inside the window.  The left side wraps; it
does not wrap past the window because `sent` itself was below it. -/
theorem window_of_sendable {n : Nat} (hpos : 0 < n) (h : n ≤ (sendableOf c).toNat) :
    c.txSeq + BitVec.ofNat 32 n - c.rxAck ≤ c.rxWin := by
  have hle := h.trans (sendableOf_le_window c)
  have hshift :
      c.txSeq + BitVec.ofNat 32 n - c.rxAck = (c.txSeq - c.rxAck) + BitVec.ofNat 32 n := by
    bv_omega
  rw [hshift]
  generalize c.txSeq - c.rxAck = sent at *
  split at hle
  · bv_omega
  · have hzero : (0 : U32).toNat = 0 := rfl
    omega

/-! ## Sending -/

/-- The fields of a connection that sending may touch. -/
def touched (c : MuxConnection) (txAcked : U32) (lastAckTime : BitVec 64) (ackPending : Bool) :
    MuxConnection :=
  { c with txAcked := txAcked, lastAckTime := lastAckTime, ackPending := ackPending }

theorem sendPacket_tcp (env : Env) (s : Sys) (th : Tcphdr) {data : List UInt8}
    (h : data.length ≤ usbMtu - sizeofMuxHeader - sizeofTcphdr) :
    ∃ p, (sendPacket env s .tcp (.tcp th) data).1.trace =
        s.trace ++ [.packetOut p (env.usbSend s.tick)] ∧
      (sendPacket env s .tcp (.tcp th) data).2 =
        (if env.usbSend s.tick then some p.length else none) ∧
      p.header = .tcp th ∧ p.data = data ∧ p.length ≤ usbMtu := by
  have hfit : ¬ muxHeaderSize s.dev + sizeofTcphdr + data.length > usbMtu := by
    simp only [muxHeaderSize, usbMtu, sizeofMuxHeader, sizeofTcphdr] at h ⊢
    split <;> omega
  unfold sendPacket
  simp only [hdrlenOf, if_neg hfit]
  exact ⟨_, rfl, rfl, rfl, rfl, not_lt.mp hfit⟩

theorem sendTcp_spec (env : Env) (s : Sys) (c : MuxConnection) (flags : U8) {data : List UInt8}
    (h : data.length ≤ usbMtu - sizeofMuxHeader - sizeofTcphdr) :
    ∃ s' p ok a l k n,
      sendTcp env s c flags data = (s', touched c a l k, if ok then some n else none) ∧
      s'.trace = s.trace ++ [.packetOut p ok] ∧
      p.header = .tcp (c.tcphdr flags) ∧ p.data = data ∧ p.length ≤ usbMtu := by
  obtain ⟨p, htrace, hres, hp⟩ := sendPacket_tcp env s (c.tcphdr flags) h
  unfold sendTcp
  generalize sendPacket env s .tcp (.tcp (c.tcphdr flags)) data = r at htrace hres
  obtain ⟨s', res⟩ := r
  cases hok : env.usbSend s.tick with
  | true =>
    simp only [hok, if_true] at htrace hres
    subst hres
    exact ⟨_, p, true, _, _, _, _, rfl, htrace, hp⟩
  | false =>
    simp only [hok] at htrace hres
    subst hres
    exact ⟨_, p, false, c.txAcked, c.lastAckTime, c.ackPending, 0, rfl, htrace, hp⟩

/-- Two traces that tell the same about the two streams and about the device. -/
structure SameView (t t' : List Obs) : Prop where
  written : written t' = written t
  accepted : acceptedBytes t' = acceptedBytes t
  read : readBytes t' = readBytes t
  sent : sentBytes t' = sentBytes t
  established : established t' = established t
  peer : peer t' = peer t

variable {p : MuxPacket}

theorem SameView.emptyPacket (t : List Obs) {ok : Bool} (hp : p.data = []) :
    SameView t (t ++ [.packetOut p ok]) := by
  obtain ⟨hpeer, hest⟩ := peer_snoc_of_ne t (.packetOut p ok) (fun _ h => by cases h)
  refine ⟨?_, ?_, ?_, ?_, hest, hpeer⟩
  · simp [Obs.written]
  · simp [Obs.acceptedBytes]
  · simp [Obs.readBytes]
  · cases ok <;> simp [Obs.sentBytes, hp]

variable {s : Sys}

theorem Ready.of_sameView {s' : Sys} (h : Ready s c) (hv : SameView s.trace s'.trace)
    (ht : TraceOk s'.trace) : Ready s' c := by
  refine ⟨ht, h.buf, h.fill, ?_, ?_⟩
  · rw [hv.written, hv.accepted]
    exact h.stream
  · rw [hv.written, hv.established]
    exact h.ack

theorem Ready.sendTcp_empty (h : Ready s c) (env : Env) (flags : U8) :
    ∃ (s' : Sys) (ok : Bool) (a : U32) (l : BitVec 64) (k : Bool) (n : Nat),
      sendTcp env s c flags [] = (s', touched c a l k, if ok then some n else none) ∧
      SameView s.trace s'.trace ∧ Ready s' (touched c a l k) := by
  obtain ⟨s', p, ok, a, l, k, n, hsend, htrace, hhdr, hdata, hlen⟩ :=
    sendTcp_spec env s c flags (show ([] : List UInt8).length ≤ _ by simp)
  have hview : SameView s.trace s'.trace := by
    rw [htrace]
    exact .emptyPacket s.trace hdata
  have hok : PacketOk s.trace p (c.tcphdr flags) :=
    { fits := hlen
      ack := h.ack
      seq := fun hne => absurd hdata hne
      stream := fun hne => absurd hdata hne
      window := fun hne => absurd hdata hne }
  have htraceOk : TraceOk s'.trace := by
    rw [htrace]
    refine ⟨eachAt_snoc.mpr ⟨h.trace.each, _, hhdr, hok⟩, ?_⟩
    simpa [Obs.written, Obs.acceptedBytes] using h.trace.pfx
  have hready : Ready s' c := h.of_sameView hview htraceOk
  exact ⟨s', ok, a, l, k, n, hsend, hview,
    ⟨hready.trace, hready.buf, hready.fill, hready.stream, hready.ack⟩⟩

/-! ## Teardown -/

theorem ib_after_write {buf : List UInt8} {size : U32} {k : Nat} (hbuf : buf.length = connInbufSize)
    (hfill : size.toNat ≤ connInbufSize) (hk : k ≤ size.toNat) :
    buf.take size.toNat = buf.take k ++
      (memmove buf 0 k (size - BitVec.ofNat 32 k).toNat).take (size - BitVec.ofNat 32 k).toNat ∧
    (memmove buf 0 k (size - BitVec.ofNat 32 k).toNat).length = connInbufSize ∧
    (size - BitVec.ofNat 32 k).toNat = size.toNat - k := by
  have hleft : (size - BitVec.ofNat 32 k).toNat = size.toNat - k := by bv_omega
  have hroom : k + (size.toNat - k) ≤ buf.length := by omega
  rw [hleft]
  refine ⟨?_, ?_, rfl⟩
  · rw [take_memmove hroom]
    exact take_split hk
  · rw [length_memmove hroom, hbuf]

variable {t : List Obs}

theorem TraceOk.clientWrote {bs rest : List UInt8} (h : TraceOk t)
    (hs : written t ++ (bs ++ rest) = acceptedBytes t) : TraceOk (t ++ [.clientWrote bs]) := by
  refine ⟨eachAt_snoc.mpr ⟨h.each, trivial⟩, ?_⟩
  refine ⟨rest, ?_⟩
  simpa [Obs.written, Obs.acceptedBytes] using hs

theorem flushLoop_traceOk (env : Env) : ∀ (fuel : Nat) (s : Sys) (c : MuxConnection),
    TraceOk s.trace → c.ibBuf.length = connInbufSize → c.ibSize.toNat ≤ connInbufSize →
    written s.trace ++ c.ib = acceptedBytes s.trace →
    TraceOk (flushLoop env fuel s c).1.trace
  | 0, _, _, ht, _, _, _ => ht
  | fuel + 1, s, c, ht, hbuf, hfill, hs => by
    unfold flushLoop
    split
    case h_1 => exact ht
    case h_2 size _ =>
      split
      · exact ht
      · have hk : size.val ≤ c.ibSize.toNat := Nat.lt_succ_iff.mp size.isLt
        obtain ⟨hsplit, hlen, hleft⟩ := ib_after_write hbuf hfill hk
        have hnext := hs
        rw [MuxConnection.ib, hsplit] at hnext
        have htw := ht.clientWrote hnext
        split
        · exact htw
        · refine flushLoop_traceOk env fuel _ _ htw hlen ?_ ?_
          · show (c.ibSize - BitVec.ofNat 32 size.val).toNat ≤ connInbufSize
            omega
          · simpa [Sys.log, Sys.asked, Obs.written, Obs.acceptedBytes, MuxConnection.ib]
              using hnext

theorem Ready.teardown (h : Ready s c) (hs : c.state ≠ .dead) (env : Env) :
    TraceOk (connectionTeardown env s c).1.trace ∧ (connectionTeardown env s c).2 = .freed := by
  have hrst : ∃ s' a l k,
      (if s.dev.state ≠ .dead ∧ c.state ≠ .dying ∧ c.state ≠ .refused then
        ((sendTcp env s c thRst []).1, (sendTcp env s c thRst []).2.1) else (s, c)) =
          (s', touched c a l k) ∧ Ready s' (touched c a l k) := by
    split
    · obtain ⟨s', ok, a, l, k, n, hsend, -, hr⟩ := h.sendTcp_empty env thRst
      exact ⟨s', a, l, k, by rw [hsend], hr⟩
    · exact ⟨s, c.txAcked, c.lastAckTime, c.ackPending, rfl, h⟩
  obtain ⟨s', a, l, k, heq, hr⟩ := hrst
  unfold connectionTeardown
  simp only [if_neg hs, heq]
  split
  · split
    · exact ⟨hr.trace, rfl⟩
    · split
      · exact ⟨flushLoop_traceOk env _ _ _ hr.trace hr.buf hr.fill hr.stream, rfl⟩
      · exact ⟨hr.trace, rfl⟩
  · exact ⟨hr.trace, rfl⟩

theorem Ready.good_teardown (h : Ready s c) (hs : c.state ≠ .dead) (env : Env) :
    Good (connectionTeardown env s c) := by
  obtain ⟨ht, hslot⟩ := h.teardown hs env
  simpa only [Good, hslot] using ht

theorem Phase.ne_dead (h : Phase s c) : c.state ≠ .dead := by
  rcases h with ⟨h, -⟩ | ⟨h, -⟩ <;> simp [h]

/-! ## Flags, acknowledgements, timeouts -/

theorem Steady.update (h : Steady s c) : Live s (updateConnection c) where
  trace := h.trace
  buf := h.buf
  fill := h.fill
  stream := h.stream
  ack := h.ack
  caps := ⟨h.caps.inCap, h.caps.payload⟩
  peerSeen := h.peerSeen
  read := h.read
  phase := h.phase
  sendable := rfl

theorem Steady.of_sameView {s' : Sys} (h : Steady s c) (hv : SameView s.trace s'.trace)
    (hr : Ready s' c) : Steady s' c where
  toReady := hr
  caps := h.caps
  peerSeen := hv.peer.trans h.peerSeen
  read := by rw [hv.read, hv.sent, h.read]
  phase := by
    unfold Phase
    rw [hv.established, hv.written, hv.sent]
    exact h.phase

theorem Steady.touched (h : Steady s c) (a : U32) (l : BitVec 64) (k : Bool) :
    Steady s (touched c a l k) where
  trace := h.trace
  buf := h.buf
  fill := h.fill
  stream := h.stream
  ack := h.ack
  caps := ⟨h.caps.inCap, h.caps.payload⟩
  peerSeen := h.peerSeen
  read := h.read
  phase := h.phase

theorem Steady.sendTcpAck (h : Steady s c) (env : Env) : Good (sendTcpAck env s c) := by
  obtain ⟨s', ok, a, l, k, n, hsend, hview, hr⟩ := h.toReady.sendTcp_empty env thAck
  unfold Usbmuxd.sendTcpAck
  rw [hsend]
  cases ok with
  | true => exact ((h.touched a l k).of_sameView hview hr).update
  | false => exact hr.good_teardown h.phase.ne_dead env

theorem Live.checkTimeout (h : Live s c) (env : Env) (ct : BitVec 64) :
    Good (checkTimeout env s c ct) := by
  unfold Usbmuxd.checkTimeout
  split
  · exact h.toSteady.sendTcpAck env
  · exact h

/-! ## Client socket events -/

theorem Phase.connected_of_ib (h : Phase s c) (hpos : 0 < c.ibSize.toNat) :
    c.state = .connected ∧ established s.trace = true ∧
      c.txSeq = 1 + BitVec.ofNat 32 (sentBytes s.trace).length := by
  rcases h with ⟨-, -, -, -, -, hib, -⟩ | h
  · rw [hib] at hpos
    exact absurd hpos (by decide)
  · exact h

theorem Phase.of_connected (h : Phase s c) (hconn : c.state = .connected) :
    established s.trace = true ∧ c.txSeq = 1 + BitVec.ofNat 32 (sentBytes s.trace).length := by
  rcases h with ⟨h, -⟩ | ⟨-, h⟩
  · rw [hconn] at h
    cases h
  · exact h

theorem Live.clientWrote (h : Live s c) (hpos : 0 < c.ibSize.toNat) {bs buf' : List UInt8}
    {size' : U32} (hib : c.ib = bs ++ buf'.take size'.toNat) (hbuf : buf'.length = connInbufSize)
    (hsize : size'.toNat ≤ connInbufSize) :
    Live (s.asked.log (.clientWrote bs))
      { c with txAck := c.txAck + BitVec.ofNat 32 bs.length, ibSize := size', ibBuf := buf' } := by
  obtain ⟨hstate, hest, hseq⟩ := h.phase.connected_of_ib hpos
  obtain ⟨hpeer', hest'⟩ := peer_snoc_of_ne s.trace (.clientWrote bs) (fun _ h => by cases h)
  have hnext := h.stream
  rw [hib] at hnext
  have hack : c.txAck + BitVec.ofNat 32 bs.length =
      1 + BitVec.ofNat 32 (written (s.trace ++ [.clientWrote bs])).length := by
    have hw : written (s.trace ++ [.clientWrote bs]) = written s.trace ++ bs := by
      simp [Obs.written]
    rw [h.ack hest, hw, length_append, BitVec.ofNat_add, BitVec.add_assoc]
  refine ⟨⟨⟨h.trace.clientWrote hnext, hbuf, hsize, ?_, fun _ => hack⟩,
    ⟨h.caps.inCap, h.caps.payload⟩, hpeer'.trans h.peerSeen, ?_, Or.inr ⟨hstate, ?_, ?_⟩⟩,
    h.sendable⟩
  · simpa [Sys.log, Sys.asked, Obs.written, Obs.acceptedBytes, MuxConnection.ib] using hnext
  · simpa [Sys.log, Sys.asked, Obs.readBytes, Obs.sentBytes] using h.read
  · exact hest'.trans hest
  · simpa [Sys.log, Sys.asked, Obs.sentBytes] using hseq

/-- A write to the client, whole or partial, moves bytes from the in-buffer to the stream
and acknowledges exactly those. -/
theorem Live.clientWritable (h : Live s c) (env : Env) (hpos : 0 < c.ibSize.toNat) :
    match clientWritable env s c with
    | .error torn => Good torn
    | .ok (s', c') => Live s' c' := by
  have hdead : c.state ≠ .dead := h.phase.ne_dead
  have hasked : Ready s.asked c := h.toReady.of_sameView ⟨rfl, rfl, rfl, rfl, rfl, rfl⟩ h.trace
  unfold Usbmuxd.clientWritable
  cases env.clientSend s.tick c.ibSize.toNat with
  | none => exact hasked.good_teardown hdead env
  | some size =>
    have hfill := h.fill
    have hk : size.val ≤ c.ibSize.toNat := Nat.lt_succ_iff.mp size.isLt
    have hcount : (c.ibBuf.take size.val).length = size.val := by
      rw [length_take, h.buf]
      omega
    by_cases hzero : size.val = 0
    · simp only [if_pos hzero]
      exact hasked.good_teardown hdead env
    · by_cases hall : size.val = c.ibSize.toNat
      · have hib : c.ib = c.ibBuf.take size.val ++ c.ibBuf.take (0 : U32).toNat := by
          rw [MuxConnection.ib, hall]
          simp
        have hl := h.clientWrote hpos hib h.buf (by simp)
        rw [hcount] at hl
        simpa only [if_neg hzero, if_pos hall] using hl
      · obtain ⟨hib, hlen, hleft⟩ := ib_after_write h.buf h.fill hk
        have hl := h.clientWrote hpos hib hlen (by omega)
        rw [hcount] at hl
        simpa only [if_neg hzero, if_neg hall] using hl

theorem Live.connected_of_sendable (h : Live s c) (hpos : 0 < c.sendable.toNat) :
    c.state = .connected ∧ established s.trace = true ∧
      c.txSeq = 1 + BitVec.ofNat 32 (sentBytes s.trace).length := by
  rcases h.phase with ⟨-, -, -, -, hwin, -⟩ | h'
  · have hle := sendableOf_le_window c
    rw [← h.sendable, hwin] at hle
    have hnot : ¬ (0 : U32) > c.txSeq - c.rxAck := by bv_omega
    rw [if_neg hnot] at hle
    have hzero : (0 : U32).toNat = 0 := rfl
    omega
  · exact h'

theorem Caps.sendable_le (h : Caps c) :
    (sendableOf c).toNat ≤ usbMtu - sizeofMuxHeader - sizeofTcphdr := by
  have hle := sendableOf_le_maxPayload c
  rw [h.payload] at hle
  simpa [usbMtu, sizeofMuxHeader, sizeofTcphdr] using hle

theorem Live.dataPacket (h : Live s c) {data : List UInt8} (hne : data ≠ [])
    (hle : data.length ≤ c.sendable.toNat) (hdata : p.data = data) (hlen : p.length ≤ usbMtu) :
    PacketOk (s.trace ++ [.clientRead data]) p (c.tcphdr thAck) := by
  have hlpos : 0 < data.length := length_pos_iff.mpr hne
  obtain ⟨-, hest, hseq⟩ := h.connected_of_sendable (by omega)
  obtain ⟨hpeer', -⟩ := peer_snoc_of_ne s.trace (.clientRead data) (fun _ h => by cases h)
  have hsent : sentBytes (s.trace ++ [.clientRead data]) = sentBytes s.trace := by
    simp [Obs.sentBytes]
  refine ⟨hlen, fun _ => ?_, fun _ => ?_, fun _ => ?_, fun _ => ?_⟩
  · have hack := h.ack hest
    simpa [Obs.written, MuxConnection.tcphdr] using hack
  · rw [hsent]
    exact hseq
  · rw [hsent, hdata, readBytes, flatMap_append, flatMap_singleton, Obs.readBytes, ← h.read]
  · have hwin := window_of_sendable (c := c) hlpos (h.sendable ▸ hle)
    rw [hdata, peerAck, peerWin, hpeer', h.peerSeen]
    exact hwin

theorem TraceOk.clientRead (h : TraceOk t) (bs : List UInt8) : TraceOk (t ++ [.clientRead bs]) := by
  refine ⟨eachAt_snoc.mpr ⟨h.each, trivial⟩, ?_⟩
  simpa [Obs.written, Obs.acceptedBytes] using h.pfx

variable {th : Tcphdr}

theorem TraceOk.packetOut (h : TraceOk t) (hth : p.header = .tcp th) (hp : PacketOk t p th)
    (ok : Bool) : TraceOk (t ++ [.packetOut p ok]) := by
  refine ⟨eachAt_snoc.mpr ⟨h.each, th, hth, hp⟩, ?_⟩
  simpa [Obs.written, Obs.acceptedBytes] using h.pfx

theorem Live.clientReadable (h : Live s c) (env : Env) (hpos : 0 < c.sendable.toNat) :
    Good (clientReadable env s c) := by
  have hdead : c.state ≠ .dead := h.phase.ne_dead
  have hasked : Ready s.asked c := h.toReady.of_sameView ⟨rfl, rfl, rfl, rfl, rfl, rfl⟩ h.trace
  obtain ⟨hstate, hest, hseq⟩ := h.connected_of_sendable hpos
  unfold Usbmuxd.clientReadable
  cases env.clientRecv s.tick c.sendable.toNat with
  | none => exact hasked.good_teardown hdead env
  | some data =>
    obtain ⟨data, hle⟩ := data
    by_cases hne : data = []
    · simp only [if_pos hne]
      exact hasked.good_teardown hdead env
    · simp only [if_neg hne]
      have hfit : data.length ≤ usbMtu - sizeofMuxHeader - sizeofTcphdr :=
        (h.sendable ▸ hle).trans h.caps.sendable_le
      obtain ⟨s', p, ok, a, l, k, n, hsend, htrace, hhdr, hdata, hlen⟩ :=
        sendTcp_spec env (s.asked.log (.clientRead data)) c thAck hfit
      change s'.trace = (s.trace ++ [.clientRead data]) ++ [.packetOut p ok] at htrace
      have hpacket := h.dataPacket hne hle hdata hlen
      have htraceOk : TraceOk s'.trace := by
        rw [htrace]
        exact (h.trace.clientRead data).packetOut hhdr hpacket ok
      have hview : peer s'.trace = peer s.trace ∧ established s'.trace = established s.trace := by
        obtain ⟨hp1, he1⟩ := peer_snoc_of_ne s.trace (.clientRead data) (fun _ h => by cases h)
        obtain ⟨hp2, he2⟩ := peer_snoc_of_ne (s.trace ++ [.clientRead data]) (.packetOut p ok)
          (fun _ h => by cases h)
        rw [htrace]
        exact ⟨hp2.trans hp1, he2.trans he1⟩
      have hwritten : written s'.trace = written s.trace := by
        simp [htrace, Obs.written]
      have hready : Ready s' (touched c a l k) := by
        refine ⟨htraceOk, h.buf, h.fill, ?_, fun _ => ?_⟩
        · have haccepted : acceptedBytes s'.trace = acceptedBytes s.trace := by
            simp [htrace, Obs.acceptedBytes]
          rw [hwritten, haccepted]
          exact h.stream
        · rw [hwritten]
          exact h.ack hest
      rw [hsend]
      cases ok with
      | false => exact hready.good_teardown hdead env
      | true =>
        have hsent : sentBytes s'.trace = sentBytes s.trace ++ data := by
          simp [htrace, Obs.sentBytes, hdata]
        have hread : readBytes s'.trace = sentBytes s'.trace := by
          rw [hsent, ← h.read]
          simp [htrace, Obs.readBytes]
        have hnum : c.txSeq + BitVec.ofNat 32 data.length =
            1 + BitVec.ofNat 32 (sentBytes s'.trace).length := by
          rw [hsent, hseq, length_append, BitVec.ofNat_add, BitVec.add_assoc]
        have hsteady : Steady s'
            { touched c a l k with txSeq := c.txSeq + BitVec.ofNat 32 data.length } :=
          ⟨⟨hready.trace, hready.buf, hready.fill, hready.stream, hready.ack⟩,
            ⟨h.caps.inCap, h.caps.payload⟩, hview.1.trans h.peerSeen, hread,
            Or.inr ⟨hstate, hview.2.trans hest, hnum⟩⟩
        exact hsteady.update

theorem Live.deviceClientProcess (h : Live s c) (env : Env) (pollin pollout : Bool) :
    Good (deviceClientProcess env s c pollin pollout) := by
  have hwritten :
      match (if pollout ∧ 0 < c.ibSize.toNat then Usbmuxd.clientWritable env s c
        else .ok (s, c)) with
      | .error torn => Good torn
      | .ok (s', c') => Live s' c' := by
    by_cases hout : pollout ∧ 0 < c.ibSize.toNat
    · rw [if_pos hout]
      exact h.clientWritable env hout.2
    · rw [if_neg hout]
      exact h
  unfold Usbmuxd.deviceClientProcess
  generalize (if pollout ∧ 0 < c.ibSize.toNat then Usbmuxd.clientWritable env s c
    else .ok (s, c)) = r at hwritten ⊢
  match r, hwritten with
  | .error torn, hgood => exact hgood
  | .ok (s', c'), hlive =>
    dsimp only
    split
    case isTrue hin => exact hlive.clientReadable env hin.2
    case isFalse => exact hlive.toSteady.update

/-! ## Segments from the device -/

theorem TraceOk.segIn (h : TraceOk t) (th : Tcphdr) : TraceOk (t ++ [.segIn th]) := by
  refine ⟨eachAt_snoc.mpr ⟨h.each, trivial⟩, ?_⟩
  simpa [Obs.written, Obs.acceptedBytes] using h.pfx

theorem TraceOk.accepted (h : TraceOk t) (bs : List UInt8) : TraceOk (t ++ [.accepted bs]) := by
  refine ⟨eachAt_snoc.mpr ⟨h.each, trivial⟩, ?_⟩
  have hw : written (t ++ [.accepted bs]) = written t := by simp [Obs.written]
  have ha : acceptedBytes (t ++ [.accepted bs]) = acceptedBytes t ++ bs := by
    simp [Obs.acceptedBytes]
  rw [hw, ha]
  exact h.pfx.trans (prefix_append _ _)

variable {payload : List UInt8}

theorem Steady.connectionDeviceInput (h : Steady s c) (hconn : c.state = .connected) (env : Env)
    (hp : payload.length ≤ devMru) :
    match connectionDeviceInput env s c payload with
    | (s', .live c') => Live s' c'
    | (s', _) => TraceOk s'.trace := by
  have hphase := h.phase.of_connected hconn
  unfold Usbmuxd.connectionDeviceInput
  by_cases hover : c.ibSize + BitVec.ofNat 32 payload.length > c.ibCapacity
  · simp only [if_pos hover]
    obtain ⟨ht, hslot⟩ := h.toReady.teardown h.phase.ne_dead env
    generalize connectionTeardown env s c = r at ht hslot
    obtain ⟨s', slot⟩ := r
    dsimp only at ht hslot
    subst hslot
    exact ht
  · simp only [if_neg hover]
    have hsum : (c.ibSize + BitVec.ofNat 32 payload.length).toNat =
        c.ibSize.toNat + payload.length := by
      have hfill := h.fill
      simp only [connInbufSize, devMru] at hfill hp
      bv_omega
    have hroom : c.ibSize.toNat + payload.length ≤ connInbufSize := by
      rw [← hsum]
      have hcap := h.caps.inCap
      simp only [connInbufSize] at hcap ⊢
      bv_omega
    have hbuf : c.ibSize.toNat + payload.length ≤ c.ibBuf.length := by
      rw [h.buf]
      exact hroom
    obtain ⟨hpeer', hest'⟩ := peer_snoc_of_ne s.trace (.accepted payload) (fun _ h => by cases h)
    apply Steady.update
    refine ⟨⟨h.trace.accepted payload, (length_memcpy hbuf).trans h.buf, ?_, ?_, fun _ => ?_⟩,
      ⟨h.caps.inCap, h.caps.payload⟩, hpeer'.trans h.peerSeen, ?_,
      Or.inr ⟨hconn, hest'.trans hphase.1, ?_⟩⟩
    · rw [hsum]
      exact hroom
    · have hib : (memcpy c.ibBuf c.ibSize.toNat payload).take (c.ibSize.toNat + payload.length) =
          c.ib ++ payload := take_memcpy hbuf
      have hs := h.stream
      simp [Sys.log, Obs.written, Obs.acceptedBytes, MuxConnection.ib, hsum] at hib hs ⊢
      rw [hib, ← append_assoc, hs]
    · have hw : written (s.log (.accepted payload)).trace = written s.trace := by
        simp [Sys.log, Obs.written]
      rw [hw]
      exact h.ack hphase.1
    · simpa [Sys.log, Obs.readBytes, Obs.sentBytes] using h.read
    · simpa [Sys.log, Obs.sentBytes] using hphase.2

theorem Steady.connectedInput (h : Steady s c) (hconn : c.state = .connected) (env : Env)
    (th : Tcphdr) (hp : payload.length ≤ devMru) : Good (connectedInput env s c th payload) := by
  unfold Usbmuxd.connectedInput
  by_cases hflags : th.flags ≠ thAck
  · rw [if_pos hflags]
    split
    · have hr : Ready s { c with state := .dying } := ⟨h.trace, h.buf, h.fill, h.stream, h.ack⟩
      exact hr.good_teardown (fun hd => by cases hd) env
    · exact h.toReady.good_teardown h.phase.ne_dead env
  · rw [if_neg hflags]
    have hin := h.connectionDeviceInput hconn env hp
    generalize Usbmuxd.connectionDeviceInput env s c payload = r at hin
    obtain ⟨s', slot⟩ := r
    cases slot with
    | live c' => exact hin.toSteady.sendTcpAck env
    | freed => exact hin
    | dangling => exact hin

theorem Live.stream_segIn (h : Live s c) (th : Tcphdr) :
    written (s.log (.segIn th)).trace ++ (c.seen th).ib =
      acceptedBytes (s.log (.segIn th)).trace := by
  simpa [Sys.log, Obs.written, Obs.acceptedBytes, MuxConnection.ib, MuxConnection.seen]
    using h.stream

theorem Phase.of_connecting (h : Phase s c) (hconn : c.state = .connecting) :
    established s.trace = false ∧ c.txSeq = 0 ∧ c.txAck = 0 ∧ c.rxWin = 0 ∧ c.ibSize = 0 ∧
      written s.trace = [] ∧ sentBytes s.trace = [] := by
  rcases h with ⟨-, h⟩ | ⟨h, -⟩
  · exact h
  · rw [hconn] at h
    cases h

theorem Live.connectingInput_refused (h : Live s c) (hconn : c.state = .connecting) (env : Env)
    (hflags : th.flags ≠ thSyn ||| thAck) :
    Good (connectingInput env (s.log (.segIn th)) (c.seen th) th) := by
  obtain ⟨hest, -⟩ := h.phase.of_connecting hconn
  have hest' : established (s.log (.segIn th)).trace = false := by
    simp [Sys.log, hest, hflags]
  have hready : Ready (s.log (.segIn th)) (c.seen th) := by
    refine ⟨h.trace.segIn th, h.buf, h.fill, h.stream_segIn th, fun he => ?_⟩
    rw [hest'] at he
    cases he
  have hdead : (c.seen th).state ≠ .dead := h.phase.ne_dead
  unfold Usbmuxd.connectingInput
  rw [if_pos hflags]
  split
  · have hrefused : Ready (s.log (.segIn th)) { c.seen th with state := .refused } :=
      ⟨hready.trace, hready.buf, hready.fill, hready.stream, hready.ack⟩
    exact hrefused.good_teardown (fun hd => by cases hd) env
  · exact hready.good_teardown hdead env

theorem Live.connectingInput_opened (h : Live s c) (hconn : c.state = .connecting) (env : Env)
    (hflags : ¬ th.flags ≠ thSyn ||| thAck) :
    Good (connectingInput env (s.log (.segIn th)) (c.seen th) th) := by
  obtain ⟨-, hseq, hack, -, -, hw, hsent⟩ := h.phase.of_connecting hconn
  have hest : established (s.log (.segIn th)).trace = true := by
    simp only [Sys.log, established_snoc_segIn, Bool.or_eq_true, beq_iff_eq]
    exact Or.inr (not_not.mp hflags)
  -- from here on `tx_ack = 1` acknowledges the SYN/ACK and nothing else
  have hready : Ready (s.log (.segIn th)) (c.seen th).synAcked := by
    refine ⟨h.trace.segIn th, h.buf, h.fill, h.stream_segIn th, fun _ => ?_⟩
    simp [Sys.log, Obs.written, hw, hack, MuxConnection.synAcked, MuxConnection.seen]
  obtain ⟨s1, ok, a, l, k, n, hsend, hview, hr⟩ := hready.sendTcp_empty env thAck
  unfold Usbmuxd.connectingInput
  rw [if_neg hflags, hsend]
  cases ok with
  | false => exact hr.good_teardown h.phase.ne_dead env
  | true =>
    have hsent1 : sentBytes s1.trace = [] := by
      rw [hview.sent]
      simpa [Sys.log, Obs.sentBytes] using hsent
    have hread1 : readBytes s1.trace = [] := by
      rw [hview.read]
      simpa [Sys.log, Obs.readBytes, hsent] using h.read
    have hnum : (c.seen th).synAcked.txSeq =
        1 + BitVec.ofNat 32 (sentBytes s1.trace).length := by
      simp [hsent1, hseq, MuxConnection.synAcked, MuxConnection.seen]
    have hpeer : peer s1.trace = ((c.seen th).rxAck, (c.seen th).rxWin) :=
      hview.peer.trans (by simp [Sys.log, MuxConnection.seen])
    simp only [if_true]
    split
    · exact Steady.update ⟨⟨hr.trace, hr.buf, hr.fill, hr.stream, hr.ack⟩,
        ⟨h.caps.inCap, h.caps.payload⟩, hpeer, hread1.trans hsent1.symm,
        Or.inr ⟨rfl, hview.established.trans hest, hnum⟩⟩
    · have hgone : Ready s1.asked
          { Usbmuxd.touched (c.seen th).synAcked a l k with
            state := .connected, client := false } :=
        ⟨hr.trace, hr.buf, hr.fill, hr.stream, hr.ack⟩
      exact (hgone.teardown (fun hd => by cases hd) env).1

theorem Live.deviceTcpInput (h : Live s c) (env : Env) (th : Tcphdr)
    (hp : payload.length ≤ devMru) : Good (deviceTcpInput env s c th payload) := by
  unfold Usbmuxd.deviceTcpInput
  rcases h.phase with ⟨hstate, -⟩ | ⟨hstate, hest, hseq⟩
  · rw [hstate]
    by_cases hflags : th.flags ≠ thSyn ||| thAck
    · exact h.connectingInput_refused hstate env hflags
    · exact h.connectingInput_opened hstate env hflags
  · rw [hstate]
    have hsteady : Steady (s.log (.segIn th)) (c.seen th) := by
      refine ⟨⟨h.trace.segIn th, h.buf, h.fill, h.stream_segIn th, fun _ => ?_⟩,
        ⟨h.caps.inCap, h.caps.payload⟩, ?_, ?_, Or.inr ⟨hstate, ?_, ?_⟩⟩
      · simpa [Sys.log, Obs.written, MuxConnection.seen] using h.ack hest
      · simp [Sys.log, MuxConnection.seen]
      · simpa [Sys.log, Obs.readBytes, Obs.sentBytes] using h.read
      · simp [Sys.log, hest]
      · simpa [Sys.log, Obs.sentBytes, MuxConnection.seen] using hseq
    exact hsteady.connectedInput hstate env th hp

/-! ## Whole runs -/

theorem Live.step (h : Live s c) (env : Env) (e : Event) : Good (step env (s, .live c) e) := by
  have hdead : c.state ≠ .dead := h.phase.ne_dead
  cases e with
  | tcp th payload => exact h.deviceTcpInput env th payload.property
  | client pollin pollout => exact h.deviceClientProcess env pollin pollout
  | checkTimeouts ct => exact h.checkTimeout env ct
  | abort => exact h.toReady.good_teardown hdead env
  | remove =>
    show Good (Usbmuxd.deviceRemove env s c)
    unfold Usbmuxd.deviceRemove
    split
    · have hready : Ready { s with dev := { s.dev with state := .dead } } c :=
        h.toReady.of_sameView ⟨rfl, rfl, rfl, rfl, rfl, rfl⟩ h.trace
      exact hready.good_teardown hdead env
    · exact h

theorem Good.step {w : Sys × Slot} (h : Good w) (env : Env) (e : Event) : Good (step env w e) := by
  obtain ⟨s, slot⟩ := w
  cases slot with
  | live c => exact Live.step h env e
  | freed => exact h
  | dangling => exact h

theorem good_start (env : Env) (dev : MuxDevice) (sport dport : U16) (ibBuf : InBuf) :
    Good (deviceStartConnect env ⟨dev, 0, []⟩ sport dport ibBuf) := by
  unfold deviceStartConnect
  extract_lets c
  have htrace : TraceOk [] := ⟨eachAt_nil, prefix_rfl⟩
  have hstart : Live ⟨dev, 0, []⟩ c :=
    ⟨⟨⟨htrace, ibBuf.property, Nat.zero_le _, rfl, fun h => by cases h⟩, ⟨rfl, rfl⟩, rfl, rfl,
      Or.inl ⟨rfl, rfl, rfl, rfl, rfl, rfl, rfl, rfl⟩⟩, rfl⟩
  obtain ⟨s', ok, a, l, k, n, hsend, hview, hr⟩ := hstart.toReady.sendTcp_empty env thSyn
  rw [hsend]
  cases ok with
  | true => exact ⟨(hstart.toSteady.touched a l k).of_sameView hview hr, rfl⟩
  | false => exact hr.trace

theorem good_run (env : Env) (dev : MuxDevice) (sport dport : U16) (ibBuf : InBuf)
    (events : List Event) : Good (run env dev sport dport ibBuf events) := by
  unfold run
  have hstart := good_start env dev sport dport ibBuf
  generalize deviceStartConnect env ⟨dev, 0, []⟩ sport dport ibBuf = w at hstart
  induction events generalizing w with
  | nil => exact hstart
  | cons e events ih => exact ih _ (hstart.step env e)

theorem Good.traceOk {w : Sys × Slot} (h : Good w) : TraceOk w.1.trace := by
  obtain ⟨s, slot⟩ := w
  cases slot with
  | live c => exact (show Live s c from h).trace
  | freed => exact h
  | dangling => exact h

/-- **Device to client.**  In every run of a connection, as long as it is open, the bytes the
client's socket has taken followed by the contents of the in-buffer are the payloads accepted
so far, in order; `tx_ack` counts the bytes taken, modulo `2 ^ 32`; and no segment sent since
the SYN/ACK acknowledges more than the bytes taken before it was sent.  What the client was
given is a prefix of what was accepted even after a teardown. -/
theorem device_to_client_stream (env : Env) (dev : MuxDevice) (sport dport : U16) (ibBuf : InBuf)
    (events : List Event) :
    (∀ c, (run env dev sport dport ibBuf events).2 = .live c → c.state = .connected →
      written (run env dev sport dport ibBuf events).1.trace ++ c.ib =
        acceptedBytes (run env dev sport dport ibBuf events).1.trace ∧
      c.txAck = 1 + BitVec.ofNat 32
        (written (run env dev sport dport ibBuf events).1.trace).length ∧
      c.txAck + c.ibSize = 1 + BitVec.ofNat 32
        (acceptedBytes (run env dev sport dport ibBuf events).1.trace).length) ∧
    EachAt (fun pre o => ∀ p ok th, o = .packetOut p ok → p.header = .tcp th →
      established pre = true → th.ack = 1 + BitVec.ofNat 32 (written pre).length)
      (run env dev sport dport ibBuf events).1.trace ∧
    written (run env dev sport dport ibBuf events).1.trace <+:
      acceptedBytes (run env dev sport dport ibBuf events).1.trace := by
  have hgood := good_run env dev sport dport ibBuf events
  have htrace := hgood.traceOk
  generalize run env dev sport dport ibBuf events = w at hgood htrace ⊢
  obtain ⟨s, slot⟩ := w
  refine ⟨?_, ?_, htrace.pfx⟩
  · rintro c rfl hstate
    have hlive : Live s c := hgood
    have hest := (hlive.phase.of_connected hstate).1
    have hlen : c.ib.length = c.ibSize.toNat := by
      have hfill := hlive.fill
      rw [MuxConnection.ib, length_take, hlive.buf]
      omega
    refine ⟨hlive.stream, hlive.ack hest, ?_⟩
    rw [hlive.ack hest, ← hlive.stream, length_append, hlen, BitVec.ofNat_add,
      BitVec.ofNat_toNat, BitVec.setWidth_eq, BitVec.add_assoc]
  · intro pre o post hsplit p ok th ho hth hest
    subst ho
    obtain ⟨th', hth', hp⟩ := htrace.each pre _ post hsplit
    rw [hth] at hth'
    cases hth'
    exact hp.ack hest

/-- An environment in which everything succeeds, but the client's socket takes at most two
bytes at a time and has the bytes `7, 8, 9` to read. -/
def slowClient : Env where
  usbSend _ := true
  clientSend _ len := some ⟨min 2 len, by omega⟩
  clientRecv _ len := some ⟨[7, 8, 9].take len, length_take_le len _⟩
  notifyConnect _ := true
  mstime64 _ := 0

def blankInBuf : InBuf := ⟨List.replicate connInbufSize 0, length_replicate⟩

/-- SYN/ACK with a window of 512 bytes, three bytes of payload, then a socket event. -/
def shortExchange : List Event :=
  [.tcp ⟨62078, 1, 0, 1, thSyn ||| thAck, 2⟩ ⟨[], by simp⟩,
    .tcp ⟨62078, 1, 1, 1, thAck, 2⟩ ⟨[1, 2, 3], by simp [devMru]⟩,
    .client true true]

theorem device_to_client_stream_short :
    ∃ c, (run slowClient ⟨.active, 2, 0, 0⟩ 1 62078 blankInBuf shortExchange).2 = .live c ∧
      c.state = .connected ∧ c.txAck = 3#32 ∧
      written (run slowClient ⟨.active, 2, 0, 0⟩ 1 62078 blankInBuf shortExchange).1.trace ++ c.ib =
        [1, 2, 3] := by
  refine ⟨_, rfl, rfl, rfl, ?_⟩
  exact ((device_to_client_stream slowClient ⟨.active, 2, 0, 0⟩ 1 62078 blankInBuf
    shortExchange).1 _ rfl rfl).1

/-- **Client to device.**  In every run of a connection, under either protocol version, no
packet is refused for its size, and every packet handed to `usb_send` is a TCP packet whose
headers and payload fit the USB MTU.  One with a payload is numbered by the payload bytes
sent before it, modulo `2 ^ 32`; the bytes read from the client so far are those sent before
followed by its payload; and its end, counted from the last acknowledgement of the device, is
inside the last window of the device.  While the connection is there, everything read from
the client has been sent. -/
theorem client_to_device_stream (env : Env) (dev : MuxDevice) (sport dport : U16) (ibBuf : InBuf)
    (events : List Event) :
    .mtuRefusal ∉ (run env dev sport dport ibBuf events).1.trace ∧
    EachAt (fun pre o => ∀ p ok, o = .packetOut p ok →
      p.length ≤ usbMtu ∧ ∃ th, p.header = .tcp th ∧
        (p.data ≠ [] →
          th.seq = 1 + BitVec.ofNat 32 (sentBytes pre).length ∧
          readBytes pre = sentBytes pre ++ p.data ∧
          th.seq + BitVec.ofNat 32 p.data.length - peerAck pre ≤ peerWin pre))
      (run env dev sport dport ibBuf events).1.trace ∧
    (∀ c, (run env dev sport dport ibBuf events).2 = .live c →
      readBytes (run env dev sport dport ibBuf events).1.trace =
        sentBytes (run env dev sport dport ibBuf events).1.trace) := by
  have hgood := good_run env dev sport dport ibBuf events
  have htrace := hgood.traceOk
  generalize run env dev sport dport ibBuf events = w at hgood htrace ⊢
  obtain ⟨s, slot⟩ := w
  refine ⟨?_, ?_, ?_⟩
  · intro hmem
    obtain ⟨pre, post, hsplit⟩ := append_of_mem hmem
    exact htrace.each pre _ post hsplit
  · intro pre o post hsplit p ok ho
    subst ho
    obtain ⟨th, hth, hp⟩ := htrace.each pre _ post hsplit
    exact ⟨hp.fits, th, hth, fun hne => ⟨hp.seq hne, hp.stream hne, hp.window hne⟩⟩
  · rintro c rfl
    have hlive : Live s c := hgood
    exact hlive.read

theorem client_to_device_stream_short :
    ∃ c, (run slowClient ⟨.active, 2, 0, 0⟩ 1 62078 blankInBuf shortExchange).2 = .live c ∧
      readBytes (run slowClient ⟨.active, 2, 0, 0⟩ 1 62078 blankInBuf shortExchange).1.trace =
        [7, 8, 9] ∧
      sentBytes (run slowClient ⟨.active, 2, 0, 0⟩ 1 62078 blankInBuf shortExchange).1.trace =
        [7, 8, 9] := by
  have hread : readBytes
      (run slowClient ⟨.active, 2, 0, 0⟩ 1 62078 blankInBuf shortExchange).1.trace = [7, 8, 9] := rfl
  refine ⟨_, rfl, hread, ?_⟩
  rw [← (client_to_device_stream slowClient ⟨.active, 2, 0, 0⟩ 1 62078 blankInBuf
    shortExchange).2.2 _ rfl]
  exact hread

end IDeviceStack.Usbmuxd
