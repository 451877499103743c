/-
# `Usbmuxd.Client` — a client as two queues

The daemon as a whole does not look into the buffers of a client: it puts replies
behind those that are waiting, and it takes messages off the front.  Here a
`mux_client` has the *contents* of its buffers, `ib_buf[0, ib_size)` and
`ob_buf[0, ob_size)`, and `send_pkt`, `process_send` and the first half of
`process_recv` work on these.

* `ibNull` and `obNull` say that a buffer was freed and its pointer set to `NULL`;
  `ib_size` is not reset then, so the contents of the in-buffer stay what they were.
* `ob_capacity` is still there: a packet for which the enlarged buffer is too
  small is `none`, a write past its end.

**Proved here.**  The buffers of `Framing` have these contents after each of the three
(`sendPkt_contents`, `processSend_contents`, `recvMessage_contents`).
-/
import IDeviceStack.Usbmuxd.Framing

namespace IDeviceStack.Usbmuxd

open Lib

/-- `struct mux_client`. -/
structure Client where
  fd : Nat
  state : ClientState
  protoVersion : Nat
  /-- `ib_buf[0, ib_size)`. -/
  ib : List UInt8
  ibNull : Bool
  /-- `ob_buf[0, ob_size)`. -/
  ob : List UInt8
  obNull : Bool
  obCapacity : Nat
  /-- `events & POLLIN` and `events & POLLOUT`. -/
  pollin : Bool
  pollout : Bool
  /-- `devents & POLLIN` and `devents & POLLOUT`. -/
  devPollin : Bool
  devPollout : Bool
  connectTag : Nat
  connectDevice : Nat
  deriving DecidableEq, Repr

/-- The client that `client_accept` makes. -/
def Client.accepted (fd : Nat) : Client where
  fd := fd
  state := .command
  protoVersion := 0
  ib := []
  ibNull := false
  ob := []
  obNull := false
  obCapacity := replyBufSize
  pollin := true
  pollout := false
  devPollin := false
  devPollout := false
  connectTag := 0
  connectDevice := 0

/-! ## The out-queue -/

/-- The end of `send_pkt`: the packet goes behind the others. -/
def Client.put (c : Client) (r : Reply) : Option Client :=
  if c.ob.length + r.length ≤ c.obCapacity then
    some { c with ob := c.ob ++ r.bytes c.protoVersion, pollout := true }
  else
    none

/-- `send_pkt`, and whether the packet was queued. -/
def Client.sendPkt (c : Client) (r : Reply) : Option (Client × Bool) :=
  if c.obCapacity - c.ob.length < r.length then
    if r.memory then
      ({ c with obCapacity := newSize c.obCapacity r.length }.put r).map (·, true)
    else
      some (c, false)
  else
    (c.put r).map (·, true)

/-- What `process_send` does to a client whose last reply has gone out. -/
def Client.drained (c : Client) : Client :=
  if c.state = .connecting2 then
    { c with
      ob := [], obNull := true, state := .connected, pollin := c.devPollin, pollout := c.devPollout }
  else
    { c with ob := [], pollout := false }

/-- `process_send`: the client and the bytes that went out; `none` is `client_close`.  The
argument answers `send`. -/
def Client.processSend (send : Nat → Option Nat) (c : Client) : Option (Client × List UInt8) :=
  if c.ob = [] then
    some ({ c with pollout := false }, [])
  else
    match send c.ob.length with
    | none => none
    | some res =>
      if res = 0 then
        none
      else if res = c.ob.length then
        some (c.drained, c.ob)
      else
        some ({ c with ob := c.ob.drop res }, c.ob.take res)

/-! ## The in-queue -/

/-- What `process_recv` comes to before `client_command`: the new contents of the in-buffer. -/
inductive Intake where
  /-- More bytes are needed. -/
  | waiting (ib : List UInt8)
  /-- The message is complete. -/
  | message (ib : List UInt8)
  | closed
  deriving DecidableEq, Repr

/-- `process_recv` from the check of the length on. -/
def takeBody (recv : Nat → Option (List UInt8)) (ib : List UInt8) (didRead : Bool) : Intake :=
  if hdrLength ib > cmdBufSize then
    .closed
  else if hdrLength ib < sizeofUsbmuxdHeader then
    .closed
  else if ib.length < hdrLength ib then
    if didRead then
      .waiting ib
    else
      match recv (hdrLength ib - ib.length) with
      | none => .closed
      | some bytes =>
        if bytes = [] then
          .closed
        else if (ib ++ bytes).length < hdrLength ib then
          .waiting (ib ++ bytes)
        else
          .message (ib ++ bytes)
  else
    .message ib

/-- `process_recv` up to `client_command`.  The first argument answers `recv`. -/
def takeMessage (recv : Nat → Option (List UInt8)) (ib : List UInt8) : Intake :=
  if ib.length < sizeofUsbmuxdHeader then
    match recv (sizeofUsbmuxdHeader - ib.length) with
    | none => .closed
    | some bytes =>
      if bytes = [] then
        .closed
      else if (ib ++ bytes).length < sizeofUsbmuxdHeader then
        .waiting (ib ++ bytes)
      else
        takeBody recv (ib ++ bytes) true
  else
    takeBody recv ib false

/-! ## The queues are the contents of the buffers -/

/-- The client with buffers that a client with queues stands for. -/
structure Contents (c : MuxClient) (q : Client) : Prop where
  inRoom : c.ibBuf.length = cmdBufSize ∧ c.ibCapacity = cmdBufSize
  ibFill : c.ibSize ≤ cmdBufSize
  ib : q.ib = c.partialMessage
  outRoom : c.obBuf.length = c.obCapacity
  obFill : c.obSize ≤ c.obCapacity
  ob : q.ob = c.unsent
  same : q.state = c.state ∧ q.protoVersion = c.protoVersion ∧ q.obCapacity = c.obCapacity

/-- The client after a step, and what else comes of it. -/
def SameStep {β : Type} (x : MuxClient × β) (y : Client × β) : Prop := x.2 = y.2 ∧ Contents x.1 y.1

section Contents

variable {c : MuxClient} {q : Client}

theorem Contents.length_ob (h : Contents c q) : q.ob.length = c.obSize := by
  rw [h.ob, MuxClient.unsent, List.length_take, h.outRoom, Nat.min_eq_left h.obFill]

theorem Contents.put (h : Contents c q) {buf : List UInt8}
    (hbuf : c.obSize ≤ buf.length → buf.take c.obSize = c.unsent) (r : Reply) :
    Option.Rel SameStep (({ c with obBuf := buf, obCapacity := buf.length }.put r).map (·, true))
      (({ q with obCapacity := buf.length }.put r).map (·, true)) := by
  rw [MuxClient.put, Client.put, h.length_ob]
  split_ifs with hroom
  · have hfits : c.obSize + (r.bytes c.protoVersion).length ≤ buf.length := by
      rwa [r.length_bytes]
    refine .some ⟨rfl, { h with
      outRoom := length_memcpy hfits, obFill := hroom, ob := ?_
      same := ⟨h.same.1, h.same.2.1, rfl⟩ }⟩
    rw [h.same.2.1, h.ob, ← hbuf (by omega), MuxClient.unsent, ← r.length_bytes c.protoVersion]
    exact (take_memcpy hfits).symm
  · exact .none

/-- `send_pkt` on the buffers and on the queues. -/
theorem sendPkt_contents (h : Contents c q) (r : Reply) :
    Option.Rel SameStep (sendPkt c r) (q.sendPkt r) := by
  rw [sendPkt, Client.sendPkt, h.length_ob, h.same.2.2]
  split_ifs with hfull hmemory
  · have hkept := fun size (hsize : c.obSize ≤ (realloc c.obBuf size).length) =>
      take_realloc (h.outRoom ▸ h.obFill) (length_realloc c.obBuf size ▸ hsize)
    have hgrown := h.put (hkept (newSize c.obCapacity r.length)) r
    rw [length_realloc] at hgrown
    exact hgrown
  · exact .some ⟨rfl, h⟩
  · have hkept := h.put (fun _ => rfl) r
    rw [h.outRoom, show { q with obCapacity := c.obCapacity } = q by rw [← h.same.2.2]] at hkept
    exact hkept

/-- `process_send` on the buffers and on the queues, before the result of a connect request. -/
theorem processSend_contents (h : Contents c q) (hstate : c.state ≠ .connecting2)
    (send : Nat → Option Nat) (hsend : ∀ n k, send n = some k → k ≤ n) :
    Option.Rel SameStep (processSend send c) (q.processSend send) := by
  have hnil : q.ob = [] ↔ c.obSize = 0 := by rw [← List.length_eq_zero_iff, h.length_ob]
  rw [processSend, Client.processSend, h.length_ob]
  simp only [hnil]
  split_ifs with hempty
  · exact .some ⟨rfl, { h with }⟩
  cases hres : send c.obSize with
  | none => exact .none
  | some res =>
    have hle := hsend _ _ hres
    dsimp only
    split_ifs with hzero hall
    · exact .none
    · refine .some ⟨by rw [h.ob, hall, MuxClient.unsent], ?_⟩
      rw [Client.drained, if_neg (h.same.1 ▸ hstate)]
      exact { h with obFill := Nat.zero_le _, ob := List.take_zero.symm }
    · have hfit : res + (c.obSize - res) ≤ c.obBuf.length := by
        rw [Nat.add_sub_cancel' hle, h.outRoom]
        exact h.obFill
      refine .some ⟨?_, { h with
        outRoom := (length_memmove hfit).trans h.outRoom
        obFill := (Nat.sub_le _ _).trans h.obFill, ob := ?_ }⟩
      · rw [h.ob, MuxClient.unsent, List.take_take, Nat.min_eq_left hle]
      · rw [h.ob, MuxClient.unsent, List.drop_take, ← take_memmove hfit]
        rfl

theorem Contents.length_ib (h : Contents c q) : q.ib.length = c.ibSize := by
  rw [h.ib, MuxClient.partialMessage, List.length_take, h.inRoom.1, Nat.min_eq_left h.ibFill]

theorem Contents.hdrLength_ib (h : Contents c q) (hsize : sizeofUsbmuxdHeader ≤ c.ibSize) :
    hdrLength q.ib = hdrLength c.ibBuf := by
  refine hdrLength_of_take ?_ (le_trans (by decide) hsize)
  rw [h.ib, MuxClient.partialMessage, List.take_take, Nat.min_self]

theorem Contents.took (h : Contents c q) {bytes : List UInt8}
    (hfits : c.ibSize + bytes.length ≤ cmdBufSize) :
    Contents (c.took bytes) { q with ib := q.ib ++ bytes } := by
  have hroom : c.ibSize + bytes.length ≤ c.ibBuf.length := h.inRoom.1.symm ▸ hfits
  refine { h with
    inRoom := ⟨(length_memcpy hroom).trans h.inRoom.1, h.inRoom.2⟩, ibFill := hfits, ib := ?_ }
  rw [h.ib]
  exact (take_memcpy hroom).symm

/-- What `process_recv` comes to, on the buffers and on the queues. -/
def SameIntake (q : Client) : Received → Intake → Prop
  | .waiting c _, .waiting ib | .message c _ _, .message ib => Contents c { q with ib := ib }
  | .closed, .closed => True
  | _, _ => False

variable {recv : Nat → Option (List UInt8)}
  (hrecv : ∀ n bytes, recv n = some bytes → bytes.length ≤ n)

include hrecv

theorem recvBody_contents (h : Contents c q) (hsize : sizeofUsbmuxdHeader ≤ c.ibSize)
    (read : Option (List UInt8)) :
    SameIntake q (recvBody recv c read) (takeBody recv q.ib read.isSome) := by
  rw [recvBody.eq_def, takeBody, h.hdrLength_ib hsize, h.inRoom.2, h.length_ib]
  split_ifs with hlong hshort hless hread
  · trivial
  · trivial
  · obtain ⟨bytes, rfl⟩ := Option.isSome_iff_exists.mp hread
    exact h
  · obtain rfl : read = none := by simpa using hread
    cases hbytes : recv (hdrLength c.ibBuf - c.ibSize) with
    | none => trivial
    | some bytes =>
      have hle := hrecv _ _ hbytes
      have htook := h.took (show c.ibSize + bytes.length ≤ cmdBufSize by omega)
      have hsame := (htook.hdrLength_ib (Nat.le_add_right_of_le hsize)).symm.trans
        ((hdrLength_of_take (List.take_left.trans List.take_length.symm)
          (h.length_ib.symm ▸ le_trans (by decide) hsize)).trans
          (h.hdrLength_ib hsize))
      dsimp only
      rw [hsame, htook.length_ib]
      split_ifs with hempty hpart
      · trivial
      · exact htook
      · exact htook
  · exact h

/-- `process_recv` on the buffers and on the queues. -/
theorem recvMessage_contents (h : Contents c q) :
    SameIntake q (recvMessage recv c) (takeMessage recv q.ib) := by
  rw [recvMessage, takeMessage, h.length_ib]
  split_ifs with hsize
  · cases hbytes : recv (sizeofUsbmuxdHeader - c.ibSize) with
    | none => trivial
    | some bytes =>
      have hle := hrecv _ _ hbytes
      have hroom : sizeofUsbmuxdHeader ≤ cmdBufSize := by decide
      have htook := h.took (show c.ibSize + bytes.length ≤ cmdBufSize by omega)
      dsimp only
      rw [htook.length_ib]
      split_ifs with hempty hpart
      · trivial
      · exact htook
      · exact recvBody_contents hrecv htook (by omega) (some bytes)
  · exact recvBody_contents hrecv h (by omega) none

end Contents

end IDeviceStack.Usbmuxd
