/-
# `WebkitProxy.Chunking` — how the stream is cut does not matter

The WebSocket receiver over whole streams.  Between two calls of `ws_on_recv` it
keeps the state of the frame it is in, the message so far, and in `in` the bytes
it could not use yet.

**Proved here.**  `recvTurn_stable`, `wsOnRecv_chunks`.
-/
import IDeviceStack.WebkitProxy.FrameCodec

namespace IDeviceStack.WebkitProxy

open Lib List

/-! ## The header -/

/-- The length field that a complete header has in front of `rest`. -/
def payloadField (bits : Nat) (b1 : UInt8) (rest : List UInt8) : Nat :=
  if payloadNOf (len7 b1) > 0 then readLength bits (rest.take (payloadNOf (len7 b1))) else len7 b1

variable {bits : Nat} {continued : UInt8} {u : List UInt8}

theorem frameLengthOf_complete {frame : Nat} (h : frameLengthOf bits continued u = .ok (0, frame)) :
    ∃ b0 b1 rest, u = b0 :: b1 :: rest ∧ headerError continued b0 b1 = none ∧
      payloadNOf (len7 b1) ≤ rest.length ∧
      frame = (2 + payloadNOf (len7 b1) + maskLength b1 + payloadField bits b1 rest) % 2 ^ bits := by
  rcases u with _ | ⟨b0, _ | ⟨b1, rest⟩⟩
  · cases h
  · cases h
  · rw [frameLengthOf] at h
    cases herr : headerError continued b0 b1 with
    | some e =>
      rw [herr] at h
      cases h
    | none =>
      rw [herr] at h
      dsimp only at h
      split at h
      · next hshort =>
          have hzero := congrArg Prod.fst (Except.ok.inj h)
          dsimp only at hzero
          omega
      · next hlong =>
          simp only [length_cons] at hlong
          exact ⟨b0, b1, rest, rfl, herr, by omega, (congrArg Prod.snd (Except.ok.inj h)).symm⟩

theorem frameLengthOf_append {frame : Nat} (h : frameLengthOf bits continued u = .ok (0, frame))
    (v : List UInt8) : frameLengthOf bits continued (u ++ v) = .ok (0, frame) := by
  obtain ⟨b0, b1, rest, rfl, herr, hn, rfl⟩ := frameLengthOf_complete h
  simp only [cons_append, frameLengthOf, herr, length_cons, length_append]
  rw [if_neg (by omega), take_append_of_le_length hn]
  rfl

theorem frameLengthOf_error_append {e : WsError} (h : frameLengthOf bits continued u = .error e)
    (v : List UInt8) : frameLengthOf bits continued (u ++ v) = .error e := by
  rcases u with _ | ⟨b0, _ | ⟨b1, rest⟩⟩
  · cases h
  · cases h
  · rw [frameLengthOf] at h
    rw [cons_append, cons_append, frameLengthOf]
    cases herr : headerError continued b0 b1 with
    | some e' =>
      rw [herr] at h
      exact h
    | none =>
      rw [herr] at h
      dsimp only at h
      split at h
      · cases h
      · cases h

theorem payloadNOf_le (n : Nat) : payloadNOf n ≤ 8 := by
  rw [payloadNOf]
  split
  · omega
  · split <;> omega

theorem maskLength_le (b1 : UInt8) : maskLength b1 ≤ 4 := by
  rw [maskLength]
  split <;> omega

theorem payloadField_lt (m : Machine) (b1 : UInt8) (rest : List UInt8) :
    payloadField m.bits b1 rest < 2 ^ m.bits := by
  have hpow := m.two_pow_bits_le
  have hbits : 8 ≤ m.bits := by
    rcases m.bits_eq with h | h <;> omega
  rw [payloadField]
  split
  · rw [readLength_eq hbits]
    exact Nat.mod_lt _ (by omega)
  · next hzero =>
      have hlt : len7 b1 < 256 := (b1 &&& 0x7f).toNat_lt
      omega

theorem payloadLengthOf_eq (m : Machine) (b1 : UInt8) (rest : List UInt8) :
    payloadLengthOf m.bits
        ((2 + payloadNOf (len7 b1) + maskLength b1 + payloadField m.bits b1 rest) % 2 ^ m.bits) b1
      = payloadField m.bits b1 rest := by
  have hpow := m.two_pow_bits_le
  have hn := payloadNOf_le (len7 b1)
  have hm := maskLength_le b1
  have hlt := payloadField_lt m b1 rest
  rw [payloadLengthOf]
  split
  · next hpos =>
      generalize payloadField m.bits b1 rest = len at *
      generalize 2 ^ m.bits = M at *
      by_cases hwrap : 2 + payloadNOf (len7 b1) + maskLength b1 + len < M
      · rw [Nat.mod_eq_of_lt hwrap]
        rw [show 2 + payloadNOf (len7 b1) + maskLength b1 + len + M
          - (2 + maskLength b1 + payloadNOf (len7 b1)) = len + M by omega, Nat.add_mod_right,
          Nat.mod_eq_of_lt hlt]
      · have hmod : (2 + payloadNOf (len7 b1) + maskLength b1 + len) % M
            = 2 + payloadNOf (len7 b1) + maskLength b1 + len - M := by
          rw [Nat.mod_eq_sub_mod (by omega), Nat.mod_eq_of_lt (by omega)]
        rw [hmod, show 2 + payloadNOf (len7 b1) + maskLength b1 + len - M + M
            - (2 + maskLength b1 + payloadNOf (len7 b1)) = len by omega, Nat.mod_eq_of_lt hlt]
  · next hzero => rw [payloadField, if_neg hzero]

/-- A frame length either is the length of the frame, or has wrapped; then the payload is longer
than any buffer. -/
theorem frameLength_or_wraps (m : Machine) (b1 : UInt8) (rest : List UInt8) :
    (2 + payloadNOf (len7 b1) + maskLength b1 + payloadField m.bits b1 rest) % 2 ^ m.bits
        = 2 + payloadNOf (len7 b1) + maskLength b1 + payloadField m.bits b1 rest ∨
      2 ^ (m.bits - 1) ≤ payloadField m.bits b1 rest := by
  have hn := payloadNOf_le (len7 b1)
  have hm := maskLength_le b1
  have hhalf : 2 ^ m.bits = 2 * 2 ^ (m.bits - 1) := by
    rcases m.bits_eq with h | h <;> rw [h] <;> rfl
  have hpow := m.two_pow_bits_le
  by_cases hwrap : 2 + payloadNOf (len7 b1) + maskLength b1 + payloadField m.bits b1 rest < 2 ^ m.bits
  · exact .inl (Nat.mod_eq_of_lt hwrap)
  · exact .inr (by omega)

/-! ## One turn -/

/-- What the receiver counts on while it waits for a frame: the header is at hand, and
`frame_length` is what it says. -/
def HeaderRead (env : WsEnv) (ws : Ws) (u : List UInt8) : Prop :=
  ws.state = .readFrame → ws.neededLength = 0 ∧ ws.frameLength ≠ 0 ∧
    frameLengthOf env.machine.bits ws.continuedOpcode u = .ok (0, ws.frameLength)

variable {n : Nat}

theorem take_drop_append {k : Nat} (h : k + n ≤ u.length) (v : List UInt8) :
    ((u ++ v).drop k).take n = (u.drop k).take n := by
  rw [drop_append_of_le_length (by omega), take_append_of_le_length (by rw [length_drop]; omega)]

variable {ws : Ws}

theorem wsReadFrame_append (env : WsEnv)
    (hframe : frameLengthOf env.machine.bits ws.continuedOpcode u = .ok (0, ws.frameLength))
    (hlong : ws.frameLength ≤ u.length) {v : List UInt8}
    (hlen : (u ++ v).length < 2 ^ (env.machine.bits - 1)) :
    wsReadFrame env ws (u ++ v) = wsReadFrame env ws u := by
  obtain ⟨b0, b1, rest, hu, -, hn, hvalue⟩ := frameLengthOf_complete hframe
  have hpayload : payloadLengthOf env.machine.bits ws.frameLength b1
      = payloadField env.machine.bits b1 rest := by
    rw [hvalue, payloadLengthOf_eq]
  have hcond : ∀ w : List UInt8, ws.frameLength ≤ w.length →
      ((ws.neededLength ≠ 0 ∨ ws.frameLength = 0 ∨ w.length < ws.frameLength) ↔
        (ws.neededLength ≠ 0 ∨ ws.frameLength = 0)) := by
    intro w hw
    omega
  have hlong' : ws.frameLength ≤ (u ++ v).length := by
    rw [length_append]
    omega
  have hbytes : ∀ w, (u ++ w).getD 0 0 = b0 ∧ (u ++ w).getD 1 0 = b1 := by
    intro w
    rw [hu]
    exact ⟨rfl, rfl⟩
  have hnil := hbytes []
  rw [append_nil] at hnil
  simp only [wsReadFrame, hcond _ hlong, hcond _ hlong', (hbytes v).1, (hbytes v).2, hnil.1, hnil.2,
    hpayload]
  by_cases hidle : ws.neededLength ≠ 0 ∨ ws.frameLength = 0
  · rw [if_pos hidle, if_pos hidle]
  rw [if_neg hidle, if_neg hidle]
  cases cbEnsureCapacity env.machine ws.data (payloadField env.machine.bits b1 rest) with
  | mk data ok =>
    cases ok with
    | false => rfl
    | true =>
      dsimp only
      rcases frameLength_or_wraps env.machine b1 rest with hexact | hwraps
      · rw [hexact] at hvalue
        have hmask : ∀ w, ((u ++ w).drop (2 + payloadNOf (len7 b1))).take (maskLength b1)
            = (u.drop (2 + payloadNOf (len7 b1))).take (maskLength b1) := by
          intro w
          exact take_drop_append (by omega) w
        have hinside : ∀ w : List UInt8, ¬ (u ++ w).length
            < 2 + payloadNOf (len7 b1) + maskLength b1
              + payloadField env.machine.bits b1 rest := by
          intro w
          rw [length_append]
          omega
        have hinside' := hinside []
        rw [append_nil] at hinside'
        rw [append_assoc, hmask, hmask, take_drop_append (by omega)]
        simp only [hinside v, hinside']
      · -- neither the short nor the long input holds such a payload
        have hcrash : ∀ w : List UInt8, w.length < 2 ^ (env.machine.bits - 1) →
            w.length < 2 + payloadNOf (len7 b1) + maskLength b1
              + payloadField env.machine.bits b1 rest := by
          intro w hw
          omega
        have hshort : u.length < 2 ^ (env.machine.bits - 1) := by
          rw [length_append] at hlen
          omega
        rw [if_pos (.inl (hcrash _ hlen)), if_pos (.inl (hcrash _ hshort))]

variable {env : WsEnv}

theorem wsReadFrame_consumed {ws' : Ws} {isFin isMasking : Bool} {opcode : UInt8}
    (h : wsReadFrame env ws u = .ok ws' n isFin opcode isMasking) : 2 ≤ n ∧ n ≤ u.length := by
  simp only [wsReadFrame] at h
  split at h
  · cases h
  · split at h
    · cases h
    · split at h
      · cases h
      · next hinside =>
          split at h
          · cases h
          · cases h
            split <;> constructor <;> omega

theorem wsReadFrame_error_consumed {ws' : Ws} {e : WsError}
    (h : wsReadFrame env ws u = .error ws' n e) : n ≤ u.length := by
  simp only [wsReadFrame] at h
  split at h
  · cases h
    exact Nat.zero_le _
  · split at h
    · cases h
      exact Nat.zero_le _
    · split at h
      · cases h
      · next hinside =>
          split at h
          · cases h
            split <;> omega
          · cases h

theorem afterFrame_state (env : WsEnv) (ws : Ws) (isFin : Bool) (opcode : UInt8)
    (isMasking : Bool) :
    (afterFrame env ws isFin opcode isMasking).state = .readFrameLength ∨
      (afterFrame env ws isFin opcode isMasking).state = .closed ∨
      (afterFrame env ws isFin opcode isMasking).state = .crashed := by
  simp only [afterFrame]
  split
  · exact .inr (.inr rfl)
  · split
    · exact .inr (.inl rfl)
    · exact .inl rfl

theorem recvTurn_readFrameLength (h : ws.state = .readFrameLength) (u : List UInt8) :
    recvTurn env ws u = wsRecvFrameLength env ws u := by
  rw [recvTurn, h]

theorem recvTurn_readFrame (h : ws.state = .readFrame) (u : List UInt8) :
    recvTurn env ws u = wsRecvFrame env ws u := by
  rw [recvTurn, h]

theorem recvTurn_ended (h : ws.state = .closed ∨ ws.state = .error ∨ ws.state = .crashed)
    (u : List UInt8) : recvTurn env ws u = .wait ws := by
  rcases h with h | h | h <;> rw [recvTurn, h]

/-- What a turn can do, from each state. -/
inductive TurnCase (env : WsEnv) (ws : Ws) (u : List UInt8) : Turn Ws → Prop
  | badHeader {e : WsError} : ws.state = .readFrameLength →
      frameLengthOf env.machine.bits ws.continuedOpcode u = .error e →
      TurnCase env ws u (.halt { { ws with neededLength := 0, frameLength := 0 }.call (.onError e)
        with state := .error } 0)
  | partHeader {needed frame : Nat} : ws.state = .readFrameLength →
      frameLengthOf env.machine.bits ws.continuedOpcode u = .ok (needed, frame) →
      needed ≠ 0 ∨ frame = 0 →
      TurnCase env ws u (.wait { ws with neededLength := needed, frameLength := frame })
  | header {frame : Nat} : ws.state = .readFrameLength →
      frameLengthOf env.machine.bits ws.continuedOpcode u = .ok (0, frame) → frame ≠ 0 →
      TurnCase env ws u
        (.go { ws with neededLength := 0, frameLength := frame, state := .readFrame } 0)
  | partFrame : ws.state = .readFrame →
      ws.neededLength ≠ 0 ∨ ws.frameLength = 0 ∨ u.length < ws.frameLength →
      TurnCase env ws u (.wait ws)
  | badFrame {ws' : Ws} {n : Nat} {e : WsError} : ws.state = .readFrame →
      ws.frameLength ≤ u.length → wsReadFrame env ws u = .error ws' n e →
      ws.neededLength = 0 ∧ ws.frameLength ≠ 0 →
      TurnCase env ws u (.halt { ws'.call (.onError e) with state := .error } n)
  | crash : ws.state = .readFrame → ws.frameLength ≤ u.length → wsReadFrame env ws u = .crash →
      ws.neededLength = 0 ∧ ws.frameLength ≠ 0 →
      TurnCase env ws u (.halt { ws with state := .crashed } 0)
  | frame {ws' : Ws} {n : Nat} {isFin isMasking : Bool} {opcode : UInt8} : ws.state = .readFrame →
      ws.frameLength ≤ u.length → wsReadFrame env ws u = .ok ws' n isFin opcode isMasking →
      (afterFrame env ws' isFin opcode isMasking).state = .readFrameLength →
      ws.neededLength = 0 ∧ ws.frameLength ≠ 0 →
      TurnCase env ws u (.go (afterFrame env ws' isFin opcode isMasking) n)
  | lastFrame {ws' : Ws} {n : Nat} {isFin isMasking : Bool} {opcode : UInt8} :
      ws.state = .readFrame → ws.frameLength ≤ u.length →
      wsReadFrame env ws u = .ok ws' n isFin opcode isMasking →
      (afterFrame env ws' isFin opcode isMasking).state = .closed ∨
        (afterFrame env ws' isFin opcode isMasking).state = .crashed →
      ws.neededLength = 0 ∧ ws.frameLength ≠ 0 →
      TurnCase env ws u (.halt (afterFrame env ws' isFin opcode isMasking) n)
  | ended : ws.state = .closed ∨ ws.state = .error ∨ ws.state = .crashed →
      TurnCase env ws u (.wait ws)

theorem recvTurn_cases (env : WsEnv) (ws : Ws) (u : List UInt8) :
    TurnCase env ws u (recvTurn env ws u) := by
  cases hstate : ws.state with
  | readFrameLength =>
    rw [recvTurn_readFrameLength hstate, wsRecvFrameLength, wsReadFrameLength]
    cases hof : frameLengthOf env.machine.bits ws.continuedOpcode u with
    | error e => exact .badHeader hstate hof
    | ok lengths =>
      obtain ⟨needed, frame⟩ := lengths
      dsimp only
      by_cases hpart : needed ≠ 0 ∨ frame = 0
      · rw [if_pos hpart]
        exact .partHeader hstate hof hpart
      · rw [if_neg hpart]
        obtain rfl : needed = 0 := by omega
        exact .header hstate hof (by omega)
  | readFrame =>
    rw [recvTurn_readFrame hstate, wsRecvFrame]
    by_cases hpart : ws.neededLength ≠ 0 ∨ ws.frameLength = 0 ∨ u.length < ws.frameLength
    · rw [if_pos hpart]
      exact .partFrame hstate hpart
    · rw [if_neg hpart]
      have hready : ws.neededLength = 0 ∧ ws.frameLength ≠ 0 := by omega
      cases hread : wsReadFrame env ws u with
      | error ws' n e => exact .badFrame hstate (by omega) hread hready
      | crash => exact .crash hstate (by omega) hread hready
      | ok ws' n isFin opcode isMasking =>
        dsimp only
        rcases afterFrame_state env ws' isFin opcode isMasking with hnext | hnext
        · rw [if_pos hnext]
          exact .frame hstate (by omega) hread hnext hready
        · rw [if_neg (by rcases hnext with h | h <;> rw [h] <;> decide)]
          exact .lastFrame hstate (by omega) hread hnext hready
  | closed =>
    rw [recvTurn_ended (.inl hstate)]
    exact .ended (.inl hstate)
  | error =>
    rw [recvTurn_ended (.inr (.inl hstate))]
    exact .ended (.inr (.inl hstate))
  | crashed =>
    rw [recvTurn_ended (.inr (.inr hstate))]
    exact .ended (.inr (.inr hstate))

theorem TurnCase.eq {t : Turn Ws} (h : TurnCase env ws u t) : recvTurn env ws u = t := by
  have hframe : ws.frameLength ≤ u.length → ws.neededLength = 0 ∧ ws.frameLength ≠ 0 →
      ¬ (ws.neededLength ≠ 0 ∨ ws.frameLength = 0 ∨ u.length < ws.frameLength) := by
    intro hlong hready
    omega
  cases h with
  | badHeader hstate hof =>
    rw [recvTurn_readFrameLength hstate, wsRecvFrameLength, wsReadFrameLength, hof]
  | partHeader hstate hof hpart =>
    rw [recvTurn_readFrameLength hstate, wsRecvFrameLength, wsReadFrameLength, hof]
    exact if_pos hpart
  | header hstate hof hne =>
    rw [recvTurn_readFrameLength hstate, wsRecvFrameLength, wsReadFrameLength, hof]
    exact if_neg (by dsimp only; omega)
  | partFrame hstate hpart => rw [recvTurn_readFrame hstate, wsRecvFrame, if_pos hpart]
  | badFrame hstate hlong hread hready =>
    rw [recvTurn_readFrame hstate, wsRecvFrame, if_neg (hframe hlong hready), hread]
  | crash hstate hlong hread hready =>
    rw [recvTurn_readFrame hstate, wsRecvFrame, if_neg (hframe hlong hready), hread]
  | frame hstate hlong hread hnext hready =>
    rw [recvTurn_readFrame hstate, wsRecvFrame, if_neg (hframe hlong hready), hread]
    exact if_pos hnext
  | lastFrame hstate hlong hread hnext hready =>
    rw [recvTurn_readFrame hstate, wsRecvFrame, if_neg (hframe hlong hready), hread]
    exact if_neg (by rcases hnext with h | h <;> rw [h] <;> decide)
  | ended hstate => exact recvTurn_ended hstate u

theorem TurnCase.append {t : Turn Ws} (h : TurnCase env ws u t) (hinv : HeaderRead env ws u)
    (hwait : ∀ s, t ≠ .wait s) {v : List UInt8}
    (hlen : (u ++ v).length < 2 ^ (env.machine.bits - 1)) : TurnCase env ws (u ++ v) t := by
  have hread : ws.state = .readFrame → ws.frameLength ≤ u.length →
      wsReadFrame env ws (u ++ v) = wsReadFrame env ws u ∧ ws.frameLength ≤ (u ++ v).length := by
    intro hstate hlong
    refine ⟨wsReadFrame_append env (hinv hstate).2.2 hlong hlen, ?_⟩
    rw [length_append]
    omega
  cases h with
  | badHeader hstate hof => exact .badHeader hstate (frameLengthOf_error_append hof v)
  | partHeader _ _ _ => exact absurd rfl (hwait _)
  | header hstate hof hne => exact .header hstate (frameLengthOf_append hof v) hne
  | partFrame _ _ => exact absurd rfl (hwait _)
  | badFrame hstate hlong hres hready =>
    obtain ⟨hsame, hlong'⟩ := hread hstate hlong
    exact .badFrame hstate hlong' (hsame.trans hres) hready
  | crash hstate hlong hres hready =>
    obtain ⟨hsame, hlong'⟩ := hread hstate hlong
    exact .crash hstate hlong' (hsame.trans hres) hready
  | frame hstate hlong hres hnext hready =>
    obtain ⟨hsame, hlong'⟩ := hread hstate hlong
    exact .frame hstate hlong' (hsame.trans hres) hnext hready
  | lastFrame hstate hlong hres hnext hready =>
    obtain ⟨hsame, hlong'⟩ := hread hstate hlong
    exact .lastFrame hstate hlong' (hsame.trans hres) hnext hready
  | ended _ => exact absurd rfl (hwait _)

theorem headerRead_of_state {env : WsEnv} {ws : Ws} {u : List UInt8} (h : ws.state ≠ .readFrame) :
    HeaderRead env ws u := fun hstate => absurd hstate h

/-- **One turn.**  It does not look behind the bytes it uses, and a turn that waits can be taken
again. -/
theorem recvTurn_stable (env : WsEnv) :
    Stable (recvTurn env) (HeaderRead env) (2 ^ (env.machine.bits - 1)) where
  append := by
    intro ws u v hinv hstate
    obtain ⟨hneeded, hne, hof⟩ := hinv hstate
    exact ⟨hneeded, hne, frameLengthOf_append hof v⟩
  wait := by
    intro ws u ws' hinv hturn
    have hcase := recvTurn_cases env ws u
    rw [hturn] at hcase
    cases hcase with
    | partHeader hstate _ _ =>
      refine ⟨headerRead_of_state (by rw [hstate]; decide), fun v _ _ => ?_⟩
      -- both lengths are computed anew
      rw [recvTurn_readFrameLength hstate, recvTurn_readFrameLength (by exact hstate)]
      rfl
    | partFrame _ _ => exact ⟨hinv, fun _ _ _ => rfl⟩
    | ended _ => exact ⟨hinv, fun _ _ _ => rfl⟩
  go := by
    intro ws u ws' n hinv hturn
    have hcase := recvTurn_cases env ws u
    rw [hturn] at hcase
    refine ⟨?_, ?_, fun v hlen => (hcase.append hinv (fun _ h => by cases h) hlen).eq⟩
    · cases hcase with
      | header _ _ _ => exact Nat.zero_le _
      | frame _ _ hres _ _ => exact (wsReadFrame_consumed hres).2
    · cases hcase with
      | header hstate hof hne => exact fun _ => ⟨rfl, hne, hof⟩
      | frame _ _ _ hnext _ => exact headerRead_of_state (by rw [hnext]; decide)
  halt := by
    intro ws u ws' n hinv hturn
    have hcase := recvTurn_cases env ws u
    rw [hturn] at hcase
    refine ⟨?_, ?_, fun v hlen => (hcase.append hinv (fun _ h => by cases h) hlen).eq⟩
    · cases hcase with
      | badHeader _ _ => exact Nat.zero_le _
      | badFrame _ _ hres _ => exact wsReadFrame_error_consumed hres
      | crash _ _ _ _ => exact Nat.zero_le _
      | lastFrame _ _ hres _ _ => exact (wsReadFrame_consumed hres).2
    · cases hcase with
      | badHeader _ _ => exact headerRead_of_state (fun h => by cases h)
      | badFrame _ _ _ _ => exact headerRead_of_state (fun h => by cases h)
      | crash _ _ _ _ => exact headerRead_of_state (fun h => by cases h)
      | lastFrame _ _ _ hnext _ =>
        exact headerRead_of_state (by rcases hnext with h | h <;> rw [h] <;> decide)

theorem recvTurn_stopsForGood (env : WsEnv) : StopsForGood (recvTurn env) := by
  intro ws u ws' n hturn w
  have hcase := recvTurn_cases env ws u
  rw [hturn] at hcase
  cases hcase with
  | badHeader _ _ => exact recvTurn_ended (.inr (.inl rfl)) w
  | badFrame _ _ _ _ => exact recvTurn_ended (.inr (.inl rfl)) w
  | crash _ _ _ _ => exact recvTurn_ended (.inr (.inr rfl)) w
  | lastFrame _ _ _ hnext _ =>
    rcases hnext with h | h
    · exact recvTurn_ended (.inl h) w
    · exact recvTurn_ended (.inr (.inr h)) w

theorem recvTurn_decreases (env : WsEnv) : Decreases (recvTurn env) recvRank := by
  intro ws u ws' n hturn
  have hcase := recvTurn_cases env ws u
  rw [hturn] at hcase
  cases hcase with
  | header hstate _ _ =>
    rw [recvRank, recvRank, if_pos hstate, drop_zero, if_neg (fun h => by cases h)]
    omega
  | frame hstate _ hres hnext _ =>
    obtain ⟨hpos, hle⟩ := wsReadFrame_consumed hres
    rw [recvRank, recvRank, if_pos hnext, if_neg (by rw [hstate]; decide), length_drop]
    omega

/-! ## Whole streams -/

/-- What of a receiver can be seen: the connection, and the bytes it has not used. -/
def view (w : Ws × Cb) : Ws × List UInt8 := (w.1, w.2.content)

theorem wsOnRecv_view (hgrants : ∀ n, env.inGrants n = true) {w : Ws × Cb} (hwf : w.2.Wf)
    (buf : List UInt8) (hlen : w.2.content.length + buf.length < 2 ^ env.machine.bits) :
    (wsOnRecv env w buf).2.Wf ∧
      view (wsOnRecv env w buf) = receive (recvTurn env) recvRank (view w) buf := by
  rw [wsOnRecv, receive]
  by_cases hnil : buf.isEmpty = true
  · rw [if_pos hnil, if_pos hnil]
    exact ⟨hwf, rfl⟩
  · rw [if_neg hnil, if_neg hnil]
    obtain ⟨cb1, cb2, hbegin, hinput, hend, hwf2, hcontent⟩ :=
      cb_receive (recvTurn env) recvRank w.1 (m := env.inMachine) hgrants hwf hlen
    have hloop : wsRecvLoop env w.1 cb1.input = drainAll (recvTurn env) recvRank w.1 cb1.input := rfl
    rw [hbegin]
    dsimp only
    rw [hloop, hend]
    refine ⟨hwf2, Prod.ext ?_ hcontent⟩
    rw [hinput]
    rfl

theorem wsOnRecv_foldl_view {env : WsEnv} (hgrants : ∀ n, env.inGrants n = true)
    (chunks : List (List UInt8)) {w : Ws × Cb} (hwf : w.2.Wf)
    (hlen : w.2.content.length + chunks.flatten.length < 2 ^ env.machine.bits) :
    view (chunks.foldl (wsOnRecv env) w)
      = chunks.foldl (receive (recvTurn env) recvRank) (view w) := by
  induction chunks generalizing w with
  | nil => rfl
  | cons c chunks ih =>
    rw [flatten_cons, length_append] at hlen
    obtain ⟨hwf', hview⟩ := wsOnRecv_view hgrants hwf c (by omega)
    have hshort := length_receive_le (recvTurn env) recvRank (view w) c
    rw [← hview] at hshort
    have hlen' : (wsOnRecv env w c).2.content.length + chunks.flatten.length
        < 2 ^ env.machine.bits := by
      change (wsOnRecv env w c).2.content.length ≤ w.2.content.length + c.length at hshort
      omega
    rw [foldl_cons, foldl_cons, ih hwf' hlen', hview]

/-- **Chunking.**  However a stream is cut into calls of `ws_on_recv`, the calls of the callbacks,
the state of the connection and the bytes left over are those of one call with the whole stream,
whose length is an `ssize_t`. -/
theorem wsOnRecv_chunks (env : WsEnv) (hgrants : ∀ n, env.inGrants n = true) (ws : Ws)
    (hstate : ws.state = .readFrameLength) (cb : Cb) (hwf : cb.Wf) (chunks : List (List UInt8))
    (hlen : cb.content.length + chunks.flatten.length < 2 ^ (env.machine.bits - 1)) :
    (chunks.foldl (wsOnRecv env) (ws, cb)).1 = (wsOnRecv env (ws, cb) chunks.flatten).1 ∧
      (chunks.foldl (wsOnRecv env) (ws, cb)).2.content
        = (wsOnRecv env (ws, cb) chunks.flatten).2.content := by
  have hpow : 2 ^ (env.machine.bits - 1) ≤ 2 ^ env.machine.bits :=
    Nat.pow_le_pow_right (by omega) (by omega)
  have hinv : HeaderRead env (view (ws, cb)).1 (view (ws, cb)).2 :=
    headerRead_of_state (by rw [view, hstate]; decide)
  have hpieces := wsOnRecv_foldl_view (w := (ws, cb)) hgrants chunks hwf (by dsimp only; omega)
  have hwhole := (wsOnRecv_view (w := (ws, cb)) hgrants hwf chunks.flatten
    (by dsimp only; omega)).2
  rw [receive_flatten (recvTurn_stable env) (recvTurn_decreases env) chunks hinv
    (.inl (recvTurn_stopsForGood env)) hlen, ← hwhole] at hpieces
  exact Prod.ext_iff.mp hpieces

theorem wsOnRecv_chunks_bytewise :
    ([[0x81], [0x82], [1], [2], [3], [4], [73], [107]].foldl (wsOnRecv quietEnv)
        (wsUpgraded, cbNew)).1.calls
      = [.onFrame ⟨true, opcodeText, true, [72, 105]⟩] := by
  have hwhole := wsOnRecv_chunks quietEnv (fun _ => rfl) wsUpgraded rfl cbNew cbNew_wf
    [[0x81], [0x82], [1], [2], [3], [4], [73], [107]] (by decide)
  rw [hwhole.1]
  decide +kernel

end IDeviceStack.WebkitProxy
