/-
# `Usbmuxd.Leftover` — what earlier messages leave in `ib_buf`

A client has one buffer for what it sends.  `process_recv` writes a message over its
front and never clears it, so behind a short message the bytes of a longer one before it
are still there (`received`).  `client_command` reads the header, whose length
was checked, and the payload of a plist, as long as the header says.  A `MESSAGE_CONNECT`
it reads through `struct usbmuxd_connect_request`, whose device id and port end at the
22nd byte, and it does not ask whether the message has that many.

So a command depends on its own bytes alone exactly if it is no connect request with
less than 22 bytes (`command_own_bytes_iff`).
-/
import IDeviceStack.Usbmuxd.Runs

namespace IDeviceStack.Usbmuxd

open Lib List

/-! ## The buffer -/

/-- `ib_buf` after some messages. -/
def received (buf : List UInt8) (earlier : List (List UInt8)) : List UInt8 :=
  earlier.foldl (fun buf m => memcpy buf 0 m) buf

theorem memcpy_front (buf m : List UInt8) : memcpy buf 0 m = m ++ buf.drop m.length := by
  rw [memcpy, take_zero, nil_append, Nat.zero_add]

/-! ## The command -/

namespace Daemon

/-- **Own bytes.**  In every state of the daemon, and for every client, the message has one effect
and one reply whatever messages were in the buffer before it. -/
def OwnBytes (ib : List UInt8) : Prop :=
  ∀ (env : Outside) (w : World) (k : Ptr) (ibBuf : List UInt8) (earlier earlier' : List (List UInt8)),
    ibBuf.length = cmdBufSize → (∀ m ∈ earlier, IsMessage m) → (∀ m ∈ earlier', IsMessage m) →
      clientCommand env k (memcpy (received ibBuf earlier) 0 ib) w =
        clientCommand env k (memcpy (received ibBuf earlier') 0 ib) w

/-- A `MESSAGE_CONNECT` of version 0 or 1 that ends before its port does. -/
def ShortConnect (ib : List UInt8) : Prop :=
  (le32At ib 4 = 0 ∨ le32At ib 4 = 1) ∧ le32At ib 8 = messageConnect ∧ ib.length < 22

theorem take_drop_append (ib s : List UInt8) {off n : Nat} (h : off + n ≤ ib.length) :
    ((ib ++ s).drop off).take n = (ib.drop off).take n := by
  have hlen : n ≤ (ib.drop off).length := by
    rw [length_drop]
    omega
  rw [drop_append_of_le_length (by omega), take_append_of_le_length hlen]

theorem le32At_append (ib s : List UInt8) {off : Nat} (h : off + 4 ≤ ib.length) :
    le32At (ib ++ s) off = le32At ib off := by
  rw [le32At, le32At, take_drop_append ib s h]

theorem runCommand_congr (env : Outside) (k : Ptr) {ib : List UInt8} (hm : IsMessage ib)
    (hlong : ¬ ShortConnect ib) (s : List UInt8) :
    runCommand env k (ib ++ s) = runCommand env k ib := by
  have hmin := hm.min
  rw [sizeofUsbmuxdHeader] at hmin
  have hhdr : hdrLength (ib ++ s) = hdrLength ib :=
    congrArg leVal (take_append_of_le_length (by omega))
  have hpayload : ((ib ++ s).drop sizeofUsbmuxdHeader).take (hdrLength ib - sizeofUsbmuxdHeader) =
      (ib.drop sizeofUsbmuxdHeader).take (hdrLength ib - sizeofUsbmuxdHeader) := by
    refine take_drop_append ib s ?_
    rw [hm.length_eq, sizeofUsbmuxdHeader]
    omega
  unfold runCommand
  rw [le32At_append ib s (by omega), le32At_append ib s (by omega), le32At_append ib s (by omega),
    hhdr, hpayload]
  by_cases hversion : le32At ib 4 ≠ 0 ∧ le32At ib 4 ≠ 1
  · rw [if_pos hversion, if_pos hversion]
  rw [if_neg hversion, if_neg hversion]
  by_cases hconnect : le32At ib 8 = messageConnect
  · have hfields : 22 ≤ ib.length := by
      by_contra hshort
      refine hlong ⟨?_, hconnect, by omega⟩
      by_contra hne
      exact hversion (not_or.mp hne)
    rw [le32At_append ib s (by omega), take_drop_append ib s (by omega)]
  · simp only [if_neg hconnect]

theorem clientCommand_congr (env : Outside) (k : Ptr) {ib : List UInt8} (hm : IsMessage ib)
    (hlong : ¬ ShortConnect ib) (s : List UInt8) :
    clientCommand env k (ib ++ s) = clientCommand env k ib := by
  have hmin := hm.min
  rw [sizeofUsbmuxdHeader] at hmin
  rw [clientCommand, clientCommand, runCommand_congr env k hm hlong s,
    le32At_append ib s (by omega)]

/-! ## A short connect request -/

/-- A message of another version, to which `client_command` only answers. -/
def longerFront : List UInt8 :=
  [24, 0, 0, 0, 2, 0, 0, 0, 0, 0, 0, 0, 0, 0, 0, 0, 0, 0, 0, 0, 0]

/-- It has the byte `b` where a connect request has the end of its port. -/
def longer (b : UInt8) : List UInt8 := longerFront ++ [b, 0, 0]

theorem isMessage_longer (b : UInt8) : IsMessage (longer b) :=
  ⟨rfl, Nat.le_of_ble_eq_true rfl, Nat.le_of_ble_eq_true rfl⟩

theorem memcpy_longer {ib : List UInt8} (hshort : ib.length < 22) (b : UInt8) :
    ∃ s, memcpy (received (List.replicate cmdBufSize 0) [longer b]) 0 ib =
      (ib ++ longerFront.drop ib.length) ++ b :: s := by
  refine ⟨0 :: 0 :: (List.replicate cmdBufSize 0).drop 24, ?_⟩
  have hfront : ib.length ≤ longerFront.length := Nat.le_of_lt_succ hshort
  rw [received, foldl_cons, foldl_nil, memcpy_front, memcpy_front, longer,
    append_assoc longerFront, drop_append_of_le_length hfront, append_assoc]
  rfl

theorem ntohs_ne (x : UInt8) :
    ntohs (BitVec.ofNat 16 (leVal [x, 0])) ≠ ntohs (BitVec.ofNat 16 (leVal [x, 1])) := by
  have hall : ∀ n : Fin 256, ntohs (BitVec.ofNat 16 (n.val + 256 * 0)) ≠
      ntohs (BitVec.ofNat 16 (n.val + 256 * 1)) := by
    decide +kernel
  exact hall ⟨x.toNat, x.toNat_lt⟩

/-- A client that waits for a command, and an active device. -/
def World.offering (id : Nat) : World :=
  { World.start with
    devices := Function.update (fun _ => none) 0
      (some ⟨id, 1, .active, 2, true, some Collection.init, true, 1⟩)
    deviceList := Collection.init.add 0
    clients := Function.update (fun _ => none) 1 (some (Client.accepted 9))
    clientList := Collection.init.add 1
    fresh := 2 }

theorem connectCommand_offering (tag id : Nat) (dport : U16) :
    (connectCommand (sample (fun _ => true) (fun _ => true) []) 1 tag id dport
      (World.offering id)).map (fun r => (r.2.conns 2).map (·.mux.dport)) = .ok (some dport) := by
  have hfound : getMuxDeviceForId id (World.offering id) = .ok (some 0, World.offering id) := by
    refine Meets.eq_ok ?_
    rw [getMuxDeviceForId, meets_bind, meets_lockDevices rfl, meets_bind, meets_get, meets_bind,
      meets_search (by rintro q hq; obtain rfl := mem_singleton.mp hq; rfl), meets_bind,
      meets_unlockDevices, meets_pure]
    refine ⟨?_, rfl⟩
    show [0].find? (fun q => ((World.offering id).devices q).any fun dev => dev.id = id) = some 0
    simp [World.offering]
  rw [connectCommand, deviceStartConnect, bind_assoc, bind_eq_of_ok hfound]
  rfl

/-- **A command depends on its own bytes** exactly if it is no connect request that ends before its
port. -/
theorem command_own_bytes_iff {ib : List UInt8} (hm : IsMessage ib) :
    OwnBytes ib ↔ ¬ ShortConnect ib := by
  constructor
  · rintro h ⟨hversion, hconnect, hshort⟩
    have hmin := hm.min
    rw [sizeofUsbmuxdHeader] at hmin
    have hpre : (ib ++ longerFront.drop ib.length).length = 21 := by
      rw [length_append, length_drop]
      show ib.length + (21 - ib.length) = 21
      omega
    obtain ⟨x, hx⟩ : ∃ x, (ib ++ longerFront.drop ib.length).drop 20 = [x] :=
      length_eq_one_iff.mp (by rw [length_drop, hpre])
    -- the target of the request, by the last byte of the port
    have hrun (b : UInt8) :
        (clientCommand (sample (fun _ => true) (fun _ => true) []) 1
          (memcpy (received (List.replicate cmdBufSize 0) [longer b]) 0 ib)
          (World.offering (le32At (ib ++ longerFront.drop ib.length) 16))).map
            (fun r => (r.2.conns 2).map (·.mux.dport)) =
          .ok (some (ntohs (BitVec.ofNat 16 (leVal [x, b])))) := by
      obtain ⟨s, hs⟩ := memcpy_longer hshort b
      rw [hs]
      have hport : (((ib ++ longerFront.drop ib.length) ++ b :: s).drop 20).take 2 = [x, b] := by
        rw [drop_append_of_le_length (by omega), hx]
        rfl
      have hheader (off : Nat) (hoff : off + 4 ≤ ib.length) :
          le32At ((ib ++ longerFront.drop ib.length) ++ b :: s) off = le32At ib off := by
        rw [append_assoc]
        exact le32At_append ib _ hoff
      have hclient : getClient 1
          (World.offering (le32At (ib ++ longerFront.drop ib.length) 16)) =
            .ok (Client.accepted 9, World.offering (le32At (ib ++ longerFront.drop ib.length) 16)) :=
        rfl
      have hnotPlist : messageConnect ≠ messagePlist := by decide
      have hnotListen : messageConnect ≠ messageListen := by decide
      have hwaits : ¬ (Client.accepted 9).state ≠ .command := not_not.mpr rfl
      rw [clientCommand, bind_eq_of_ok hclient, if_neg hwaits]
      unfold runCommand
      rw [hheader 4 (by omega), hheader 8 (by omega), if_neg (by omega), hconnect, if_neg hnotPlist,
        if_neg hnotListen, if_pos rfl, le32At_append _ _ (show 16 + 4 ≤ _ by omega), hport]
      exact connectCommand_offering _ _ _
    have hsame := h (sample (fun _ => true) (fun _ => true) [])
      (World.offering (le32At (ib ++ longerFront.drop ib.length) 16)) 1 (List.replicate cmdBufSize 0)
      [longer 0] [longer 1] length_replicate
      (by rintro m hm; obtain rfl := mem_singleton.mp hm; exact isMessage_longer 0)
      (by rintro m hm; obtain rfl := mem_singleton.mp hm; exact isMessage_longer 1)
    have hports := (hrun 0).symm.trans ((congrArg _ hsame).trans (hrun 1))
    exact ntohs_ne x (Option.some.inj (Except.ok.inj hports))
  · intro hlong env w k ibBuf earlier earlier' hlen hearlier hearlier'
    rw [memcpy_front, memcpy_front, clientCommand_congr env k hm hlong,
      clientCommand_congr env k hm hlong]

/-- A header that says `MESSAGE_CONNECT`, and no more. -/
def bareConnect : List UInt8 := [16, 0, 0, 0, 0, 0, 0, 0, 2, 0, 0, 0, 7, 0, 0, 0]

theorem command_own_bytes_iff_bare : OwnBytes bareConnect ↔ ¬ ShortConnect bareConnect :=
  command_own_bytes_iff ⟨rfl, by decide, by decide⟩

/-- Two messages that are refused, and that differ in the four bytes where a connect request has its
device. -/
def refused (id : UInt8) : List UInt8 :=
  [24, 0, 0, 0, 2, 0, 0, 0, 0, 0, 0, 0, 0, 0, 0, 0, id, 0, 0, 0, 0, 80, 0, 0]

/-- The state of the first client after a bare connect request that was received over `earlier`. -/
def afterBare (earlier : List UInt8) (w : World) : Except Fault (Option ClientState) :=
  (clientCommand (sample (fun _ => true) (fun _ => true) []) 1
    (memcpy (received (List.replicate cmdBufSize 0) [earlier]) 0 bareConnect) w).map
      fun r => (r.2.clients 1).map Client.state

/-- The client has sent the same header, and the daemon is in the same state: with the one message
before it the client is connected to a device that it did not name, with the other it is told that
there is none. -/
theorem connect_leftover :
    IsMessage bareConnect ∧ IsMessage (refused 1) ∧ IsMessage (refused 2) ∧
    ∃ w, run (sample (fun _ => true) (fun _ => true) [])
        [.deviceAdd 5 true, .packet 5 0 (.version 1), .accept 9] = .ok w ∧
      afterBare (refused 1) w = .ok (some .connecting1) ∧
      afterBare (refused 2) w = .ok (some .command) := by
  refine ⟨⟨rfl, by decide, by decide⟩, ⟨rfl, by decide, by decide⟩, ⟨rfl, by decide, by decide⟩, ?_⟩
  obtain ⟨w, hrun, hboth⟩ := exists_ok (p := fun w => decide
    (afterBare (refused 1) w = .ok (some .connecting1) ∧
      afterBare (refused 2) w = .ok (some .command))) (x := run (sample (fun _ => true) (fun _ => true) [])
        [.deviceAdd 5 true, .packet 5 0 (.version 1), .accept 9]) (by decide +kernel)
  exact ⟨w, hrun, of_decide_eq_true hboth⟩

end Daemon

end IDeviceStack.Usbmuxd
