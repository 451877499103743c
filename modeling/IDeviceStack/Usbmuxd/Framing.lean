/-
# `Usbmuxd.Framing` — the dialogue with a client

The two buffers of a `mux_client` (`usbmuxd/src/client.c`): `process_recv` cuts
the byte stream of a client into messages, `send_pkt` puts replies into `ob_buf`,
and `process_send` writes from its front whatever the socket takes.

* `recv(2)` gives between one byte and as many as were asked for; every way it
  can cut a stream is a list of numbers here.  The same goes for `send(2)`.
  Nothing is received from an empty stream: there is no `POLLIN` then.
* `client_command` is a parameter: a function of the message and of whatever it
  keeps elsewhere, that queues some replies.  That is all it does to the two
  buffers while the client stays in `CLIENT_COMMAND`.  That a plist message
  sets `proto_version`, which is the second word of a reply, is left out.
* `uint32_t` is `Nat`.  Only the size of the enlarged buffer can come out of the
  range, and there the remainder is taken.  A `memcpy` past the end of `ob_buf`
  is `none`.
* The machine is little-endian, as everywhere in this protocol.

**Proved here.**  `dialogue_framing`, `dialogue_overflows`.
-/
import IDeviceStack.Lib.Buffer
import IDeviceStack.Lib.Endian

namespace IDeviceStack.Usbmuxd

open Lib List Option

def cmdBufSize : Nat := 0x10000
def replyBufSize : Nat := 0x10000

/-- `sizeof(struct usbmuxd_header)`. -/
def sizeofUsbmuxdHeader : Nat := 16

inductive ClientState where
  | command
  | listen
  | connecting1
  | connecting2
  | connected
  | dead
  deriving DecidableEq, Repr

/-- The fields of `struct mux_client` that have to do with its two buffers. -/
structure MuxClient where
  state : ClientState
  protoVersion : Nat
  ibBuf : List UInt8
  ibSize : Nat
  ibCapacity : Nat
  obBuf : List UInt8
  obSize : Nat
  obCapacity : Nat
  /-- `events & POLLOUT`. -/
  pollout : Bool

/-- `client_accept`, with what `malloc` left in the buffers. -/
def MuxClient.accepted (ibBuf obBuf : List UInt8) : MuxClient where
  state := .command
  protoVersion := 0
  ibBuf := ibBuf
  ibSize := 0
  ibCapacity := cmdBufSize
  obBuf := obBuf
  obSize := 0
  obCapacity := replyBufSize
  pollout := false

/-- What is in the in-buffer, and in the out-buffer. -/
def MuxClient.partialMessage (c : MuxClient) : List UInt8 := c.ibBuf.take c.ibSize
def MuxClient.unsent (c : MuxClient) : List UInt8 := c.obBuf.take c.obSize

/-! ## Replies -/

/-- A call of `send_pkt`.  `payload_length` is an `int`. -/
structure Reply where
  tag : Nat
  msg : Nat
  payload : List UInt8
  short : payload.length < 2 ^ 31
  /-- What `realloc` answers if it is asked. -/
  memory : Bool

def Reply.length (r : Reply) : Nat := sizeofUsbmuxdHeader + r.payload.length

/-- The header and the payload of a reply. -/
def Reply.bytes (r : Reply) (protoVersion : Nat) : List UInt8 :=
  leBytes 4 r.length ++ leBytes 4 protoVersion ++ leBytes 4 r.msg ++ leBytes 4 r.tag ++ r.payload

/-- `realloc`; what it adds is overwritten before it is read. -/
def realloc (buf : List UInt8) (size : Nat) : List UInt8 :=
  buf.take size ++ List.replicate (size - buf.length) 0

/-- The two `memcpy`s at the end of `send_pkt`. -/
def MuxClient.put (c : MuxClient) (r : Reply) : Option MuxClient :=
  if c.obSize + r.length ≤ c.obBuf.length then
    some { c with
      obBuf := memcpy c.obBuf c.obSize (r.bytes c.protoVersion)
      obSize := c.obSize + r.length
      pollout := true }
  else
    none

/-- `new_size` of `send_pkt`. -/
def newSize (obCapacity length : Nat) : Nat := (obCapacity + length + 4096) % 2 ^ 32 / 4096 * 4096

/-- `send_pkt`, and whether the packet was queued. -/
def sendPkt (c : MuxClient) (r : Reply) : Option (MuxClient × Bool) :=
  if c.obCapacity - c.obSize < r.length then
    if r.memory then
      let size := newSize c.obCapacity r.length
      ({ c with obBuf := realloc c.obBuf size, obCapacity := size }.put r).map (·, true)
    else
      some (c, false)
  else
    (c.put r).map (·, true)

/-- `process_send`: the client and the bytes that went out; `none` is `client_close`.  The
argument answers `send`. -/
def processSend (send : Nat → Option Nat) (c : MuxClient) : Option (MuxClient × List UInt8) :=
  if c.obSize = 0 then
    some ({ c with pollout := false }, [])
  else
    match send c.obSize with
    | none => none
    | some res =>
      if res = 0 then
        none
      else if res = c.obSize then
        if c.state = .connecting2 then
          some ({ c with obSize := 0, pollout := false, state := .connected, obBuf := [] },
            c.obBuf.take res)
        else
          some ({ c with obSize := 0, pollout := false }, c.obBuf.take res)
      else
        some ({ c with
            obSize := c.obSize - res
            obBuf := memmove c.obBuf 0 res (c.obSize - res) },
          c.obBuf.take res)

/-! ## Messages -/

/-- `hdr->length`. -/
def hdrLength (buf : List UInt8) : Nat := leVal (buf.take 4)

/-- What `process_recv` comes to before it calls `client_command`, with the bytes it received. -/
inductive Received where
  /-- More bytes are needed. -/
  | waiting (c : MuxClient) (read : List UInt8)
  /-- The message is complete. -/
  | message (c : MuxClient) (read bytes : List UInt8)
  | closed

/-- Bytes that `recv` put behind those that are there. -/
def MuxClient.took (c : MuxClient) (bytes : List UInt8) : MuxClient :=
  { c with ibBuf := memcpy c.ibBuf c.ibSize bytes, ibSize := c.ibSize + bytes.length }

/-- `process_recv` from the check of the length on; `read` was received for the header
(`did_read`), or nothing was. -/
def recvBody (recv : Nat → Option (List UInt8)) (c : MuxClient) (read : Option (List UInt8)) :
    Received :=
  if hdrLength c.ibBuf > c.ibCapacity then
    .closed
  else if hdrLength c.ibBuf < sizeofUsbmuxdHeader then
    .closed
  else if c.ibSize < hdrLength c.ibBuf then
    match read with
    | some bytes => .waiting c bytes
    | none =>
      match recv (hdrLength c.ibBuf - c.ibSize) with
      | none => .closed
      | some bytes =>
        if bytes = [] then
          .closed
        else if (c.took bytes).ibSize < hdrLength (c.took bytes).ibBuf then
          .waiting (c.took bytes) bytes
        else
          .message (c.took bytes) bytes
            ((c.took bytes).ibBuf.take (hdrLength (c.took bytes).ibBuf))
  else
    .message c (read.getD []) (c.ibBuf.take (hdrLength c.ibBuf))

/-- `process_recv` up to `client_command`.  The first argument answers `recv`. -/
def recvMessage (recv : Nat → Option (List UInt8)) (c : MuxClient) : Received :=
  if c.ibSize < sizeofUsbmuxdHeader then
    match recv (sizeofUsbmuxdHeader - c.ibSize) with
    | none => .closed
    | some bytes =>
      if bytes = [] then
        .closed
      else if (c.took bytes).ibSize < sizeofUsbmuxdHeader then
        .waiting (c.took bytes) bytes
      else
        recvBody recv (c.took bytes) (some bytes)
  else
    recvBody recv c none

/-! ## The dialogue -/

variable {ρ : Type}

/-- `client_command`: what it keeps elsewhere, and the replies it queues. -/
abbrev Command (ρ : Type) := ρ → List UInt8 → ρ × List Reply

/-- The client, its socket, and what has happened so far. -/
structure Dialogue (ρ : Type) where
  client : MuxClient
  keeps : ρ
  /-- Sent by the client and not received yet. -/
  stream : List UInt8
  /-- The messages that `client_command` was called with. -/
  invoked : List (List UInt8)
  /-- The packets that were queued. -/
  queued : List (List UInt8)
  /-- The bytes the socket took. -/
  sent : List UInt8

def Dialogue.queue (w : Dialogue ρ) (r : Reply) : Option (Dialogue ρ) :=
  (sendPkt w.client r).map fun (c, done) =>
    { w with
      client := c
      queued := if done then w.queued ++ [r.bytes w.client.protoVersion] else w.queued }

def Dialogue.queueAll (w : Dialogue ρ) : List Reply → Option (Dialogue ρ)
  | [] => some w
  | r :: rs => (w.queue r).bind (·.queueAll rs)

inductive DialogueEvent where
  /-- `process_recv`, where `recv` gives at most `k + 1` bytes. -/
  | recv (k : Nat)
  /-- `process_send`, where `send` takes at most `k + 1` bytes. -/
  | send (k : Nat)
  /-- A reply from elsewhere. -/
  | queue (r : Reply)

/-- `process_recv` up to `client_command`, on a stream with bytes in it.  A client that was closed
receives no more. -/
def Dialogue.intake (w : Dialogue ρ) (k : Nat) : Dialogue ρ × Option (List UInt8) :=
  match recvMessage (fun len => some (w.stream.take (min (k + 1) len))) w.client with
  | .waiting c read => ({ w with client := c, stream := w.stream.drop read.length }, none)
  | .message c read bytes => ({ w with client := c, stream := w.stream.drop read.length }, some bytes)
  | .closed => ({ w with stream := [] }, none)

/-- The call of `client_command`, before its replies. -/
def Dialogue.invoke (command : Command ρ) (w : Dialogue ρ) (bytes : List UInt8) : Dialogue ρ :=
  { w with keeps := (command w.keeps bytes).1, invoked := w.invoked ++ [bytes] }

/-- `process_recv`. -/
def Dialogue.recv (command : Command ρ) (w : Dialogue ρ) (k : Nat) : Option (Dialogue ρ) :=
  match w.intake k with
  | (w', none) => some w'
  | (w', some bytes) =>
    ((w'.invoke command bytes).queueAll (command w'.keeps bytes).2).map fun w'' =>
      { w'' with client := { w''.client with ibSize := 0 } }

def Dialogue.step (command : Command ρ) (w : Dialogue ρ) : DialogueEvent → Option (Dialogue ρ)
  | .recv k => if w.stream = [] then some w else w.recv command k
  | .send k =>
    (processSend (fun len => some (min (k + 1) len)) w.client).map fun (c, out) =>
      { w with client := c, sent := w.sent ++ out }
  | .queue r => w.queue r

def Dialogue.run (command : Command ρ) (w : Dialogue ρ) : List DialogueEvent → Option (Dialogue ρ)
  | [] => some w
  | e :: es => (w.step command e).bind (·.run command es)

/-- A new client that is going to send `stream`. -/
def Dialogue.start (ibBuf obBuf : List UInt8) (keeps : ρ) (stream : List UInt8) : Dialogue ρ :=
  ⟨.accepted ibBuf obBuf, keeps, stream, [], [], []⟩

/-- A message of a client: its header says how long it is, and it fits the in-buffer. -/
structure IsMessage (m : List UInt8) : Prop where
  length_eq : hdrLength m = m.length
  min : sizeofUsbmuxdHeader ≤ m.length
  max : m.length ≤ cmdBufSize

/-! ## Where an enlargement is enough -/

/-- The sum in `new_size` is in the range of a `uint32_t`. -/
def Roomy (c : MuxClient) (r : Reply) : Prop :=
  c.obCapacity - c.obSize < r.length → r.memory = true → c.obCapacity + r.length + 4096 < 2 ^ 32

def Dialogue.QueueFits (w : Dialogue ρ) : List Reply → Prop
  | [] => True
  | r :: rs => Roomy w.client r ∧ ∀ w', w.queue r = some w' → w'.QueueFits rs

def Dialogue.StepFits (command : Command ρ) (w : Dialogue ρ) : DialogueEvent → Prop
  | .recv k => w.stream ≠ [] → ∀ w' bytes, w.intake k = (w', some bytes) →
      (w'.invoke command bytes).QueueFits (command w'.keeps bytes).2
  | .send _ => True
  | .queue r => Roomy w.client r

/-- No enlargement of a run passes 2^32. -/
def Dialogue.Fits (command : Command ρ) (w : Dialogue ρ) : List DialogueEvent → Prop
  | [] => True
  | e :: es => w.StepFits command e ∧ ∀ w', w.step command e = some w' → w'.Fits command es

/-! ## The out-buffer -/

/-- The out-buffer holds what was queued and not sent. -/
structure OutGood (w : Dialogue ρ) : Prop where
  room : w.client.obBuf.length = w.client.obCapacity
  fill : w.client.obSize ≤ w.client.obCapacity
  cap : w.client.obCapacity < 2 ^ 32
  state : w.client.state ≠ .connecting2
  out : w.sent ++ w.client.unsent = w.queued.flatten

theorem Reply.length_bytes (r : Reply) (protoVersion : Nat) :
    (r.bytes protoVersion).length = r.length := by
  simp only [Reply.bytes, length_append, length_leBytes]
  rw [Reply.length, sizeofUsbmuxdHeader]

theorem length_realloc (buf : List UInt8) (size : Nat) : (realloc buf size).length = size := by
  rw [realloc, length_append, length_take, length_replicate]
  omega

theorem take_realloc {buf : List UInt8} {n size : Nat} (hn : n ≤ buf.length) (hsize : n ≤ size) :
    (realloc buf size).take n = buf.take n := by
  rw [realloc, take_append_of_le_length (by rw [length_take]; omega), take_take,
    Nat.min_eq_left hsize]

variable {c : MuxClient} {r : Reply}

theorem MuxClient.put_eq (h : c.obSize + r.length ≤ c.obBuf.length) :
    ∃ c', c.put r = some c' ∧ c'.obBuf.length = c.obBuf.length ∧ c'.obCapacity = c.obCapacity ∧
      c'.obSize = c.obSize + r.length ∧ c'.state = c.state ∧
      c'.unsent = c.unsent ++ r.bytes c.protoVersion := by
  have hlen : c.obSize + (r.bytes c.protoVersion).length ≤ c.obBuf.length := by
    rw [r.length_bytes]
    exact h
  refine ⟨_, if_pos h, length_memcpy hlen, rfl, rfl, rfl, ?_⟩
  rw [MuxClient.unsent, MuxClient.unsent, ← take_memcpy hlen, r.length_bytes]

theorem newSize_enough {cap len : Nat} (h : cap + len + 4096 < 2 ^ 32) :
    cap + len ≤ newSize cap len := by
  rw [newSize, Nat.mod_eq_of_lt h]
  omega

theorem newSize_lt (cap len : Nat) : newSize cap len < 2 ^ 32 := by
  have hmod := Nat.mod_lt (cap + len + 4096) (show 0 < 2 ^ 32 by decide)
  rw [newSize]
  omega

theorem newSize_le {cap len : Nat} (hcap : cap < 2 ^ 32) (hlen : len < 2 ^ 31 + 16)
    (h : ¬ cap + len + 4096 < 2 ^ 32) : newSize cap len ≤ cap := by
  have hmod : (cap + len + 4096) % 2 ^ 32 = cap + len + 4096 - 2 ^ 32 := by omega
  rw [newSize, hmod]
  omega

theorem Reply.length_lt (r : Reply) : r.length < 2 ^ 31 + 16 := by
  have hshort := r.short
  rw [Reply.length, sizeofUsbmuxdHeader]
  omega

variable {w : Dialogue ρ}

/-- **One packet.**  It is queued, or there was no memory for it, exactly if the enlargement it
asks for is within the range. -/
theorem OutGood.queue (h : OutGood w) (r : Reply) :
    (Roomy w.client r → ∃ w', w.queue r = some w' ∧ OutGood w') ∧
      (¬ Roomy w.client r → w.queue r = none) := by
  have hfill := h.fill
  have hcap := h.cap
  have hlen := r.length_lt
  -- a buffer with room for the packet
  have hput (c : MuxClient) (hbuf : c.obBuf.length = c.obCapacity) (hc : c.obCapacity < 2 ^ 32)
      (hroom : c.obSize + r.length ≤ c.obCapacity) (hstate : c.state ≠ .connecting2)
      (hversion : c.protoVersion = w.client.protoVersion) (hunsent : c.unsent = w.client.unsent)
      (hsend : sendPkt w.client r = (c.put r).map (·, true)) :
      ∃ w', w.queue r = some w' ∧ OutGood w' := by
    obtain ⟨c', hc', hbuf', hcap', hsize', hstate', hunsent'⟩ :=
      MuxClient.put_eq (show c.obSize + r.length ≤ c.obBuf.length by omega)
    refine ⟨_, by rw [Dialogue.queue, hsend, hc']; rfl, ?_, ?_, ?_, ?_, ?_⟩
    · exact (hbuf'.trans hbuf).trans hcap'.symm
    · show c'.obSize ≤ c'.obCapacity
      omega
    · show c'.obCapacity < 2 ^ 32
      omega
    · show c'.state ≠ .connecting2
      rwa [hstate']
    · show w.sent ++ c'.unsent = (w.queued ++ [r.bytes w.client.protoVersion]).flatten
      rw [hunsent', hunsent, hversion, ← append_assoc, h.out]
      simp
  by_cases havail : w.client.obCapacity - w.client.obSize < r.length
  · by_cases hmem : r.memory = true
    · refine ⟨fun hroomy => ?_, fun hnot => ?_⟩
      · have henough := newSize_enough (hroomy havail hmem)
        refine hput { w.client with
          obBuf := realloc w.client.obBuf (newSize w.client.obCapacity r.length)
          obCapacity := newSize w.client.obCapacity r.length } (length_realloc _ _) (newSize_lt _ _)
          (show w.client.obSize + r.length ≤ newSize w.client.obCapacity r.length by omega)
          h.state rfl ?_ ?_
        · exact take_realloc (by rw [h.room]; exact hfill)
            (show w.client.obSize ≤ newSize w.client.obCapacity r.length by omega)
        · rw [sendPkt, if_pos havail, if_pos hmem]
      · have hsmall : newSize w.client.obCapacity r.length ≤ w.client.obCapacity := by
          refine newSize_le hcap hlen fun hlt => hnot fun _ _ => hlt
        have hno : ¬ w.client.obSize + r.length ≤
            (realloc w.client.obBuf (newSize w.client.obCapacity r.length)).length := by
          rw [length_realloc]
          omega
        rw [Dialogue.queue, sendPkt, if_pos havail, if_pos hmem]
        simp only [MuxClient.put, if_neg hno, map_none]
    · refine ⟨fun _ => ⟨w, ?_, h⟩, fun hnot => absurd (fun _ hmem' => absurd hmem' hmem) hnot⟩
      rw [Dialogue.queue, sendPkt, if_pos havail, if_neg hmem]
      rfl
  · refine ⟨fun _ => hput w.client h.room hcap (by omega) h.state rfl rfl ?_,
      fun hnot => absurd (fun hlt => absurd hlt havail) hnot⟩
    rw [sendPkt, if_neg havail]

theorem OutGood.queueAll (h : OutGood w) (rs : List Reply) :
    (w.QueueFits rs → ∃ w', w.queueAll rs = some w' ∧ OutGood w') ∧
      (¬ w.QueueFits rs → w.queueAll rs = none) := by
  induction rs generalizing w with
  | nil => exact ⟨fun _ => ⟨w, rfl, h⟩, fun hnot => absurd trivial hnot⟩
  | cons r rs ih =>
    obtain ⟨hroomy, hsmall⟩ := h.queue r
    rw [Dialogue.queueAll, Dialogue.QueueFits]
    by_cases hr : Roomy w.client r
    · obtain ⟨w1, hw1, hgood⟩ := hroomy hr
      obtain ⟨hfits, hnot⟩ := ih hgood
      rw [hw1, bind_some]
      refine ⟨fun hall => hfits (hall.2 w1 rfl), fun hall => hnot fun hrest => hall ⟨hr, ?_⟩⟩
      rintro _ ⟨⟩
      exact hrest
    · rw [hsmall hr, bind_none]
      exact ⟨fun hall => absurd hall.1 hr, fun _ => rfl⟩

/-- What receiving does not touch. -/
structure SameOut (w w' : Dialogue ρ) : Prop where
  buf : w'.client.obBuf = w.client.obBuf
  size : w'.client.obSize = w.client.obSize
  cap : w'.client.obCapacity = w.client.obCapacity
  state : w'.client.state = w.client.state
  queued : w'.queued = w.queued
  sent : w'.sent = w.sent

variable {w' : Dialogue ρ}

theorem OutGood.congr (h : OutGood w) (hsame : SameOut w w') : OutGood w' := by
  refine ⟨?_, ?_, ?_, ?_, ?_⟩
  · rw [hsame.buf, hsame.cap]
    exact h.room
  · rw [hsame.size, hsame.cap]
    exact h.fill
  · rw [hsame.cap]
    exact h.cap
  · rw [hsame.state]
    exact h.state
  · rw [hsame.sent, hsame.queued, MuxClient.unsent, hsame.buf, hsame.size]
    exact h.out

theorem OutGood.send (h : OutGood w) (k : Nat) :
    ∃ c out, processSend (fun len => some (min (k + 1) len)) w.client = some (c, out) ∧
      OutGood { w with client := c, sent := w.sent ++ out } ∧ c.ibBuf = w.client.ibBuf ∧
      c.ibSize = w.client.ibSize ∧ c.ibCapacity = w.client.ibCapacity := by
  have hfill := h.fill
  have hroom := h.room
  rw [processSend]
  by_cases hzero : w.client.obSize = 0
  · rw [if_pos hzero]
    refine ⟨_, _, rfl, ?_, rfl, rfl, rfl⟩
    exact h.congr ⟨rfl, rfl, rfl, rfl, rfl, append_nil _⟩
  · rw [if_neg hzero]
    dsimp only
    rw [if_neg (by omega)]
    by_cases hall : min (k + 1) w.client.obSize = w.client.obSize
    · rw [if_pos hall, if_neg h.state, hall]
      refine ⟨_, _, rfl, ⟨h.room, Nat.zero_le _, h.cap, h.state, ?_⟩, rfl, rfl, rfl⟩
      show w.sent ++ w.client.unsent ++ w.client.obBuf.take 0 = w.queued.flatten
      rw [take_zero, append_nil, h.out]
    · rw [if_neg hall]
      have hlt : min (k + 1) w.client.obSize < w.client.obSize := by omega
      have hmove : min (k + 1) w.client.obSize +
          (w.client.obSize - min (k + 1) w.client.obSize) ≤ w.client.obBuf.length := by omega
      refine ⟨_, _, rfl, ⟨?_, ?_, h.cap, h.state, ?_⟩, rfl, rfl, rfl⟩
      · exact (length_memmove hmove).trans h.room
      · exact Nat.le_trans (Nat.sub_le _ _) h.fill
      · show w.sent ++ w.client.obBuf.take (min (k + 1) w.client.obSize) ++
          (memmove w.client.obBuf 0 (min (k + 1) w.client.obSize)
            (w.client.obSize - min (k + 1) w.client.obSize)).take
            (w.client.obSize - min (k + 1) w.client.obSize) = w.queued.flatten
        rw [take_memmove hmove, append_assoc, ← take_split (Nat.le_of_lt hlt)]
        exact h.out

/-! ## The in-buffer -/

/-- The in-buffer holds the beginning of the next message. -/
structure InGood (msgs : List (List UInt8)) (w : Dialogue ρ) : Prop where
  room : w.client.ibBuf.length = cmdBufSize
  cap : w.client.ibCapacity = cmdBufSize
  fill : w.client.ibSize ≤ cmdBufSize
  next : ∃ rest, msgs = w.invoked ++ rest ∧
    rest.flatten = w.client.partialMessage ++ w.stream ∧
    ∀ m ∈ rest.head?, w.client.ibSize < m.length

theorem hdrLength_of_take {buf m : List UInt8} {n : Nat} (h : buf.take n = m.take n) (hn : 4 ≤ n) :
    hdrLength buf = hdrLength m := by
  have htake (l : List UInt8) : l.take 4 = (l.take n).take 4 := by
    rw [take_take, Nat.min_eq_left hn]
  rw [hdrLength, hdrLength, htake buf, h, ← htake m]

theorem MuxClient.took_bytes {read : List UInt8} (h : c.ibSize + read.length ≤ c.ibBuf.length) :
    (c.took read).ibBuf.length = c.ibBuf.length ∧
      (c.took read).partialMessage = c.partialMessage ++ read :=
  ⟨length_memcpy h, take_memcpy h⟩

/-- **One call of `process_recv`.**  It takes some bytes of the message that is under way, never
one behind it, and it has the message exactly if these were the last ones. -/
theorem recvMessage_spec {m stream tail : List UInt8} (hm : IsMessage m)
    (hroom : c.ibBuf.length = cmdBufSize) (hcap : c.ibCapacity = cmdBufSize)
    (hnext : c.partialMessage ++ stream = m ++ tail) (hsize : c.ibSize < m.length)
    (hstream : stream ≠ []) (k : Nat) :
    ∃ read, read ≠ [] ∧ stream = read ++ stream.drop read.length ∧
      c.ibSize + read.length ≤ m.length ∧ (c.took read).partialMessage = m.take (c.took read).ibSize ∧
      recvMessage (fun len => some (stream.take (min (k + 1) len))) c =
        if c.ibSize + read.length < m.length then .waiting (c.took read) read
        else .message (c.took read) read m := by
  have hmin := hm.min
  have hmax := hm.max
  have hheader : sizeofUsbmuxdHeader = 16 := rfl
  have hpart : c.partialMessage.length = c.ibSize := by
    rw [MuxClient.partialMessage, length_take]
    omega
  have hprefix : c.partialMessage = m.take c.ibSize := by
    have htake := congrArg (List.take c.ibSize) hnext
    rwa [take_left' hpart, take_append_of_le_length (by omega)] at htake
  -- what is received, if `len` bytes are asked for
  have hread (len : Nat) (hlen : 0 < len) (hle : c.ibSize + len ≤ m.length) :
      ∃ read, stream.take (min (k + 1) len) = read ∧ read ≠ [] ∧
        stream = read ++ stream.drop read.length ∧ read.length ≤ len ∧
        (c.took read).partialMessage = m.take (c.took read).ibSize := by
    have hlen' : (stream.take (min (k + 1) len)).length ≤ len := by
      rw [length_take]
      omega
    have hsplit : stream = stream.take (min (k + 1) len) ++
        stream.drop (stream.take (min (k + 1) len)).length := by
      rw [length_take]
      conv_lhs => rw [← take_append_drop (min (k + 1) len) stream]
      congr 1
      rcases Nat.le_total (min (k + 1) len) stream.length with hle' | hle'
      · rw [Nat.min_eq_left hle']
      · rw [Nat.min_eq_right hle', drop_of_length_le hle', drop_length]
    refine ⟨_, rfl, ?_, hsplit, hlen', ?_⟩
    · rw [ne_eq, take_eq_nil_iff, not_or]
      exact ⟨by omega, hstream⟩
    · rw [(MuxClient.took_bytes (by omega)).2]
      rw [hsplit, ← append_assoc] at hnext
      have hlen'' : (c.partialMessage ++ stream.take (min (k + 1) len)).length =
          c.ibSize + (stream.take (min (k + 1) len)).length := by
        rw [length_append, hpart]
      have htake := congrArg (List.take (c.ibSize + (stream.take (min (k + 1) len)).length)) hnext
      rwa [take_left' hlen'', take_append_of_le_length (by omega)] at htake
  -- once the header is there, its length is that of the message
  have hhdr (read : List UInt8) (htook : (c.took read).partialMessage = m.take (c.took read).ibSize)
      (h16 : sizeofUsbmuxdHeader ≤ (c.took read).ibSize) :
      hdrLength (c.took read).ibBuf = m.length := by
    rw [← hm.length_eq]
    exact hdrLength_of_take htook (by omega)
  rw [recvMessage]
  by_cases hshort : c.ibSize < sizeofUsbmuxdHeader
  · obtain ⟨read, hread, hne, hsplit, hlen, htook⟩ :=
      hread (sizeofUsbmuxdHeader - c.ibSize) (by omega) (by omega)
    refine ⟨read, hne, hsplit, by omega, htook, ?_⟩
    have hsize' : (c.took read).ibSize = c.ibSize + read.length := rfl
    rw [if_pos hshort, hread]
    dsimp only
    rw [if_neg hne]
    by_cases hmore : (c.took read).ibSize < sizeofUsbmuxdHeader
    · rw [if_pos hmore, if_pos (by omega)]
    · have hlength := hhdr read htook (by omega)
      rw [if_neg hmore, recvBody, hlength, if_neg (show ¬ m.length > (c.took read).ibCapacity by
        show ¬ m.length > c.ibCapacity
        omega), if_neg (by omega), hsize']
      by_cases hend : c.ibSize + read.length < m.length
      · rw [if_pos hend, if_pos hend]
      · rw [if_neg hend, if_neg hend]
        have hfull : (c.took read).ibSize = m.length := by omega
        rw [MuxClient.partialMessage, hfull, take_length] at htook
        rw [htook]
        rfl
  · obtain ⟨read, hread, hne, hsplit, hlen, htook⟩ :=
      hread (m.length - c.ibSize) (by omega) (by omega)
    have hhdr' : hdrLength c.ibBuf = m.length := by
      rw [← hm.length_eq]
      exact hdrLength_of_take hprefix (by omega)
    have hlength := hhdr read htook (show sizeofUsbmuxdHeader ≤ c.ibSize + read.length by omega)
    have hsize' : (c.took read).ibSize = c.ibSize + read.length := rfl
    refine ⟨read, hne, hsplit, by omega, htook, ?_⟩
    rw [if_neg hshort, recvBody, hhdr', if_neg (by omega), if_neg (by omega), if_pos hsize]
    rw [hread]
    dsimp only
    rw [if_neg hne, hlength, hsize']
    by_cases hend : c.ibSize + read.length < m.length
    · rw [if_pos hend, if_pos hend]
    · rw [if_neg hend, if_neg hend]
      have hfull : (c.took read).ibSize = m.length := by omega
      rw [MuxClient.partialMessage, hfull, take_length] at htook
      rw [htook]

/-- What queueing a reply does not touch. -/
structure SameIn (w w' : Dialogue ρ) : Prop where
  buf : w'.client.ibBuf = w.client.ibBuf
  size : w'.client.ibSize = w.client.ibSize
  cap : w'.client.ibCapacity = w.client.ibCapacity
  stream : w'.stream = w.stream
  invoked : w'.invoked = w.invoked

theorem MuxClient.put_in {c' : MuxClient} (h : c.put r = some c') :
    c'.ibBuf = c.ibBuf ∧ c'.ibSize = c.ibSize ∧ c'.ibCapacity = c.ibCapacity := by
  rw [MuxClient.put] at h
  split at h
  · cases h
    exact ⟨rfl, rfl, rfl⟩
  · cases h

theorem Dialogue.queue_in (h : w.queue r = some w') : SameIn w w' := by
  obtain ⟨⟨c, done⟩, hsend, rfl⟩ := map_eq_some_iff.mp h
  have hkeep : c.ibBuf = w.client.ibBuf ∧ c.ibSize = w.client.ibSize ∧
      c.ibCapacity = w.client.ibCapacity := by
    rw [sendPkt] at hsend
    split at hsend
    · split at hsend
      · obtain ⟨c', hput, heq⟩ := map_eq_some_iff.mp hsend
        cases heq
        have hkeep := MuxClient.put_in hput
        exact hkeep
      · cases hsend
        exact ⟨rfl, rfl, rfl⟩
    · obtain ⟨c', hput, heq⟩ := map_eq_some_iff.mp hsend
      cases heq
      exact MuxClient.put_in hput
  exact ⟨hkeep.1, hkeep.2.1, hkeep.2.2, rfl, rfl⟩

theorem Dialogue.queueAll_in {rs : List Reply} (h : w.queueAll rs = some w') : SameIn w w' := by
  induction rs generalizing w with
  | nil =>
    cases h
    exact ⟨rfl, rfl, rfl, rfl, rfl⟩
  | cons r rs ih =>
    obtain ⟨w1, hw1, hrest⟩ := bind_eq_some_iff.mp h
    have hfirst := Dialogue.queue_in hw1
    have hnext := ih hrest
    exact ⟨hnext.buf.trans hfirst.buf, hnext.size.trans hfirst.size, hnext.cap.trans hfirst.cap,
      hnext.stream.trans hfirst.stream, hnext.invoked.trans hfirst.invoked⟩

variable {msgs : List (List UInt8)}

theorem InGood.congr (h : InGood msgs w) (hsame : SameIn w w') : InGood msgs w' := by
  refine ⟨?_, ?_, ?_, ?_⟩
  · rw [hsame.buf]
    exact h.room
  · rw [hsame.cap]
    exact h.cap
  · rw [hsame.size]
    exact h.fill
  · rw [hsame.invoked, hsame.stream, hsame.size, MuxClient.partialMessage, hsame.buf, hsame.size]
    exact h.next

theorem InGood.intake (hmsgs : ∀ m ∈ msgs, IsMessage m) (h : InGood msgs w)
    (hstream : w.stream ≠ []) (k : Nat) :
    ∃ w' result, w.intake k = (w', result) ∧ w'.stream.length < w.stream.length ∧ SameOut w w' ∧
      (result = none → InGood msgs w') ∧
      ∀ m, result = some m → InGood msgs
        { w' with client := { w'.client with ibSize := 0 }, invoked := w'.invoked ++ [m] } := by
  obtain ⟨rest, hrest, hflat, hhead⟩ := h.next
  -- there is a message under way
  cases rest with
  | nil =>
    rw [flatten_nil] at hflat
    exact absurd (append_eq_nil_iff.mp hflat.symm).2 hstream
  | cons m rest =>
    have hm : IsMessage m := hmsgs m (by rw [hrest]; simp)
    have hsize := hhead m rfl
    rw [flatten_cons] at hflat
    obtain ⟨read, hne, hsplit, hle, htook, hspec⟩ :=
      recvMessage_spec hm h.room h.cap hflat.symm hsize hstream k
    have hmax := hm.max
    have hroom := h.room
    obtain ⟨hlen, hpart⟩ := MuxClient.took_bytes (show w.client.ibSize + read.length ≤
      w.client.ibBuf.length by omega)
    have hshrink : (w.stream.drop read.length).length < w.stream.length := by
      have hpos := length_pos_iff.mpr hne
      have hpos' := length_pos_iff.mpr hstream
      rw [length_drop]
      omega
    have hbehind : m ++ rest.flatten =
        (w.client.took read).partialMessage ++ w.stream.drop read.length := by
      rw [hpart, append_assoc, ← hsplit, hflat]
    by_cases hmore : w.client.ibSize + read.length < m.length
    · refine ⟨{ w with client := w.client.took read, stream := w.stream.drop read.length }, none,
        ?_, hshrink, ⟨rfl, rfl, rfl, rfl, rfl, rfl⟩, fun _ => ?_, (fun m hm => by cases hm)⟩
      · rw [Dialogue.intake, hspec, if_pos hmore]
      · refine ⟨hlen.trans h.room, h.cap, ?_, m :: rest, hrest, ?_, ?_⟩
        · show w.client.ibSize + read.length ≤ cmdBufSize
          omega
        · rw [flatten_cons]
          exact hbehind
        · rintro _ ⟨⟩
          exact hmore
    · refine ⟨{ w with client := w.client.took read, stream := w.stream.drop read.length }, some m,
        ?_, hshrink, ⟨rfl, rfl, rfl, rfl, rfl, rfl⟩, (fun hnone => by cases hnone), ?_⟩
      · rw [Dialogue.intake, hspec, if_neg hmore]
      · rintro _ ⟨⟩
        have hfull : (w.client.took read).ibSize = m.length :=
          show w.client.ibSize + read.length = m.length by omega
        rw [hfull, take_length] at htook
        rw [htook] at hbehind
        refine ⟨hlen.trans h.room, h.cap, Nat.zero_le _, rest, ?_,
          append_cancel_left hbehind, ?_⟩
        · rw [append_assoc]
          exact hrest
        · intro m' hm'
          have hmem : m' ∈ msgs := by
            rw [hrest]
            simp [mem_of_mem_head? hm']
          have hmin := (hmsgs m' hmem).min
          rw [sizeofUsbmuxdHeader] at hmin
          show 0 < m'.length
          omega

/-! ## Runs -/

/-- A call of `process_recv`. -/
def DialogueEvent.isRecv : DialogueEvent → Bool
  | .recv _ => true
  | _ => false

/-- **One event.**  Both buffers stay right, and the stream gets shorter with every call of
`process_recv`, exactly if the event fits. -/
theorem Dialogue.step_spec (hmsgs : ∀ m ∈ msgs, IsMessage m) (command : Command ρ)
    (hin : InGood msgs w) (hout : OutGood w) (e : DialogueEvent) :
    (w.StepFits command e → ∃ w', w.step command e = some w' ∧ InGood msgs w' ∧ OutGood w' ∧
      w'.stream.length ≤ w.stream.length - (if e.isRecv then 1 else 0)) ∧
      (¬ w.StepFits command e → w.step command e = none) := by
  cases e with
  | recv k =>
    rw [Dialogue.StepFits, Dialogue.step]
    by_cases hempty : w.stream = []
    · rw [if_pos hempty]
      refine ⟨fun _ => ⟨w, rfl, hin, hout, by simp [hempty]⟩,
        fun hnot => absurd (fun hne => absurd hempty hne) hnot⟩
    · obtain ⟨w1, result, hintake, hshrink, hsame, hnone, hsome⟩ := hin.intake hmsgs hempty k
      have hout1 := hout.congr hsame
      rw [if_neg hempty, Dialogue.recv, hintake]
      cases result with
      | none =>
        refine ⟨fun _ => ⟨w1, rfl, hnone rfl, hout1, ?_⟩, fun hnot => ?_⟩
        · show w1.stream.length ≤ w.stream.length - 1
          omega
        · refine absurd (fun _ w' bytes heq => ?_) hnot
          cases heq
      | some m =>
        have hout2 : OutGood (w1.invoke command m) :=
          hout1.congr ⟨rfl, rfl, rfl, rfl, rfl, rfl⟩
        obtain ⟨hfits, hsmall⟩ := hout2.queueAll (command w1.keeps m).2
        dsimp only
        refine ⟨fun hfit => ?_, fun hnot => ?_⟩
        · obtain ⟨w2, hw2, hgood⟩ := hfits (hfit hempty w1 m rfl)
          have hkeep := Dialogue.queueAll_in hw2
          rw [hw2, map_some]
          refine ⟨_, rfl, ?_,
            hgood.congr ⟨rfl, rfl, rfl, rfl, rfl, rfl⟩, ?_⟩
          · exact (hsome m rfl).congr
              ⟨hkeep.buf, rfl, hkeep.cap, hkeep.stream, hkeep.invoked⟩
          · show w2.stream.length ≤ w.stream.length - 1
            rw [hkeep.stream]
            show w1.stream.length ≤ w.stream.length - 1
            omega
        · have hnot' : ¬ (w1.invoke command m).QueueFits (command w1.keeps m).2 := by
            intro hfit
            refine hnot fun _ w' bytes heq => ?_
            cases heq
            exact hfit
          rw [hsmall hnot', map_none]
  | send k =>
    refine ⟨fun _ => ?_, fun hnot => absurd trivial hnot⟩
    obtain ⟨c, out, hsend, hgood, hbuf, hsize, hcap⟩ := hout.send k
    refine ⟨{ w with client := c, sent := w.sent ++ out }, ?_,
      hin.congr ⟨hbuf, hsize, hcap, rfl, rfl⟩, hgood, Nat.le_refl _⟩
    rw [Dialogue.step, hsend]
    rfl
  | queue r =>
    obtain ⟨hroomy, hsmall⟩ := hout.queue r
    refine ⟨fun hfit => ?_, hsmall⟩
    obtain ⟨w', hw', hgood⟩ := hroomy hfit
    have hkeep := Dialogue.queue_in hw'
    refine ⟨w', hw', hin.congr hkeep, hgood, ?_⟩
    show w'.stream.length ≤ w.stream.length - 0
    rw [hkeep.stream]
    exact Nat.le_refl _

theorem Dialogue.run_spec (msgs : List (List UInt8)) (hmsgs : ∀ m ∈ msgs, IsMessage m)
    (command : Command ρ) (events : List DialogueEvent) (hin : InGood msgs w) (hout : OutGood w) :
    (w.Fits command events → ∃ w', w.run command events = some w' ∧ InGood msgs w' ∧ OutGood w' ∧
      w'.stream.length ≤ w.stream.length - events.countP DialogueEvent.isRecv) ∧
      (¬ w.Fits command events → w.run command events = none) := by
  induction events generalizing w with
  | nil => exact ⟨fun _ => ⟨w, rfl, hin, hout, Nat.le_refl _⟩, fun hnot => absurd trivial hnot⟩
  | cons e events ih =>
    obtain ⟨hstep, hstuck⟩ := Dialogue.step_spec hmsgs command hin hout e
    rw [Dialogue.Fits, Dialogue.run]
    by_cases hfit : w.StepFits command e
    · obtain ⟨w1, hw1, hin1, hout1, hlen1⟩ := hstep hfit
      obtain ⟨hrun, hnone⟩ := ih hin1 hout1
      rw [hw1, bind_some]
      refine ⟨fun hall => ?_, fun hall => hnone fun hrest => hall ⟨hfit, ?_⟩⟩
      · obtain ⟨w2, hw2, hin2, hout2, hlen2⟩ := hrun (hall.2 w1 rfl)
        refine ⟨w2, hw2, hin2, hout2, ?_⟩
        rw [countP_cons]
        omega
      · rintro _ ⟨⟩
        exact hrest
    · rw [hstuck hfit, bind_none]
      exact ⟨fun hall => absurd hall.1 hfit, fun _ => rfl⟩

theorem InGood.start {ibBuf : List UInt8} (hib : ibBuf.length = cmdBufSize) (obBuf : List UInt8)
    (keeps : ρ) (hmsgs : ∀ m ∈ msgs, IsMessage m) :
    InGood msgs (Dialogue.start ibBuf obBuf keeps msgs.flatten) := by
  refine ⟨hib, rfl, Nat.zero_le _, msgs, rfl, rfl, ?_⟩
  intro m hm
  have hmin := (hmsgs m (mem_of_mem_head? hm)).min
  rw [sizeofUsbmuxdHeader] at hmin
  show 0 < m.length
  omega

theorem OutGood.start (ibBuf : List UInt8) {obBuf : List UInt8} (hob : obBuf.length = replyBufSize)
    (keeps : ρ) (stream : List UInt8) : OutGood (Dialogue.start ibBuf obBuf keeps stream) :=
  ⟨hob, Nat.zero_le _, show replyBufSize < 2 ^ 32 by decide,
    show ClientState.command ≠ .connecting2 by decide, rfl⟩

/-- **The dialogue.**  A run gets through exactly if its enlargements stay below 2^32.  Then, at
every point of it, `client_command` has been called once for each of the first messages, in order
and with its bytes; the in-buffer has the beginning of the next one and no byte behind it; and
what was sent, followed by what is in the out-buffer, is what was queued. -/
theorem dialogue_framing (command : Command ρ) (keeps : ρ) (ibBuf obBuf : List UInt8)
    (hib : ibBuf.length = cmdBufSize) (hob : obBuf.length = replyBufSize) (msgs : List (List UInt8))
    (hmsgs : ∀ m ∈ msgs, IsMessage m) (events : List DialogueEvent) :
    (((Dialogue.start ibBuf obBuf keeps msgs.flatten).run command events).isSome ↔
      (Dialogue.start ibBuf obBuf keeps msgs.flatten).Fits command events) ∧
    ∀ w, (Dialogue.start ibBuf obBuf keeps msgs.flatten).run command events = some w →
      (∃ rest, msgs = w.invoked ++ rest ∧ rest.flatten = w.client.partialMessage ++ w.stream ∧
        (∀ m ∈ rest.head?, w.client.partialMessage.length < m.length)) ∧
      w.client.ibSize ≤ w.client.ibCapacity ∧
      (msgs.flatten.length ≤ events.countP DialogueEvent.isRecv → w.invoked = msgs) ∧
      w.sent ++ w.client.unsent = w.queued.flatten ∧
      w.client.obSize ≤ w.client.obCapacity := by
  obtain ⟨hfits, hnot⟩ := Dialogue.run_spec msgs hmsgs command events
    (InGood.start hib obBuf keeps hmsgs) (OutGood.start ibBuf hob keeps msgs.flatten)
  by_cases hall : (Dialogue.start ibBuf obBuf keeps msgs.flatten).Fits command events
  · obtain ⟨w', hrun, hin, hout, hlen⟩ := hfits hall
    refine ⟨⟨fun _ => hall, fun _ => by rw [hrun]; rfl⟩, fun w hw => ?_⟩
    obtain rfl : w' = w := some.inj (hrun.symm.trans hw)
    obtain ⟨rest, hrest, hflat, hhead⟩ := hin.next
    have hpart : w'.client.partialMessage.length ≤ w'.client.ibSize := by
      rw [MuxClient.partialMessage, length_take]
      exact Nat.min_le_left _ _
    refine ⟨⟨rest, hrest, hflat, fun m hm => Nat.lt_of_le_of_lt hpart (hhead m hm)⟩,
      by rw [hin.cap]; exact hin.fill, fun hmany => ?_, hout.out, hout.fill⟩
    -- the stream is used up, so there is no further message
    have hempty : w'.stream = [] := by
      have hstart : (Dialogue.start ibBuf obBuf keeps msgs.flatten).stream = msgs.flatten := rfl
      rw [hstart] at hlen
      exact length_eq_zero_iff.mp (by omega)
    cases rest with
    | nil => rw [hrest, append_nil]
    | cons m rest =>
      have hlt := hhead m rfl
      rw [hempty, append_nil, flatten_cons] at hflat
      have hlen' := congrArg List.length hflat
      rw [length_append] at hlen'
      omega
  · rw [hnot hall]
    exact ⟨⟨(fun h => by cases h), fun h => absurd h hall⟩, (fun w hw => by cases hw)⟩

/-- A message that is only a header. -/
def bareMessage : List UInt8 := [16, 0, 0, 0, 0, 0, 0, 0, 3, 0, 0, 0, 1, 0, 0, 0]

/-- Two of them, received three bytes at a time. -/
theorem dialogue_framing_bare :
    ((Dialogue.start (List.replicate cmdBufSize 0) (List.replicate replyBufSize 0) ()
      [bareMessage, bareMessage].flatten).run (fun _ _ => ((), []))
      (List.replicate 32 (.recv 2))).map Dialogue.invoked = some [bareMessage, bareMessage] := by
  have hmsgs : ∀ m ∈ [bareMessage, bareMessage], IsMessage m := by
    intro m hm
    have heq : m = bareMessage := by simpa using hm
    rw [heq]
    exact ⟨by decide, by decide, by decide⟩
  have hfits (n : Nat) (w : Dialogue Unit) :
      w.Fits (fun _ _ => ((), [])) (List.replicate n (.recv 2)) := by
    induction n generalizing w with
    | zero => trivial
    | succ n ih => exact ⟨fun _ _ _ _ => trivial, fun w' _ => ih w'⟩
  obtain ⟨hiff, hspec⟩ := dialogue_framing (fun _ _ => ((), [])) () _ _ length_replicate
    length_replicate [bareMessage, bareMessage] hmsgs (List.replicate 32 (.recv 2))
  obtain ⟨w, hw⟩ := isSome_iff_exists.mp (hiff.mpr (hfits 32 _))
  rw [hw, map_some, (hspec w hw).2.2.1 (by decide)]

/-- A reply of 24576 bytes, for which there is memory. -/
def largeReply : Reply :=
  ⟨0, 8, List.replicate 24560 0, by rw [length_replicate]; decide, true⟩

theorem Dialogue.run_queued (command : Command ρ) (hmem : r.memory = true) (n : Nat)
    (h : w.run command (List.replicate n (.queue r)) = some w') :
    w'.sent = w.sent ∧
      w'.queued.flatten.length = w.queued.flatten.length + n * r.length := by
  induction n generalizing w with
  | zero =>
    cases h
    exact ⟨rfl, by omega⟩
  | succ n ih =>
    rw [replicate_succ, Dialogue.run] at h
    obtain ⟨w1, hw1, hrest⟩ := bind_eq_some_iff.mp h
    obtain ⟨hsent, hlen⟩ := ih hrest
    obtain ⟨⟨c, done⟩, hsend, rfl⟩ := map_eq_some_iff.mp
      (show (sendPkt w.client r).map _ = some w1 from hw1)
    have hdone : done = true := by
      rw [sendPkt, if_pos hmem] at hsend
      split at hsend
      · obtain ⟨c', -, heq⟩ := map_eq_some_iff.mp hsend
        cases heq
        rfl
      · obtain ⟨c', -, heq⟩ := map_eq_some_iff.mp hsend
        cases heq
        rfl
    subst hdone
    refine ⟨hsent, ?_⟩
    rw [hlen]
    show (w.queued ++ [r.bytes w.client.protoVersion]).flatten.length + n * r.length = _
    rw [flatten_append, length_append, flatten_singleton, Reply.length_bytes, Nat.succ_mul]
    omega

/-- A client that is sent 262144 such replies and does not read them: the buffer cannot hold them,
and one of the enlargements comes out too small. -/
theorem dialogue_overflows :
    (Dialogue.start (List.replicate cmdBufSize 0) (List.replicate replyBufSize 0) () []).run
      (fun _ _ => ((), [])) (List.replicate (2 ^ 18) (.queue largeReply)) = none := by
  obtain ⟨hfits, hnot⟩ := Dialogue.run_spec [] (by simp) (fun _ _ => ((), []))
    (List.replicate (2 ^ 18) (.queue largeReply))
    (InGood.start (length_replicate) (List.replicate replyBufSize 0) () (by simp))
    (OutGood.start (List.replicate cmdBufSize 0) (length_replicate) () [])
  refine hnot fun hall => ?_
  obtain ⟨w', hrun, -, hout, -⟩ := hfits hall
  obtain ⟨hsent, hlen⟩ := Dialogue.run_queued _ (r := largeReply) rfl (2 ^ 18) hrun
  have hunsent : w'.client.unsent.length ≤ w'.client.obSize := by
    rw [MuxClient.unsent, length_take]
    exact Nat.min_le_left _ _
  have hfill := hout.fill
  have hcap := hout.cap
  have htotal : largeReply.length = 24576 := by
    rw [Reply.length, largeReply, length_replicate]
    rfl
  rw [← hout.out, hsent, htotal] at hlen
  have hlen' : w'.client.unsent.length = 0 + 2 ^ 18 * 24576 := hlen
  omega

end IDeviceStack.Usbmuxd
