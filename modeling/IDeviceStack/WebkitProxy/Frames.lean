/-
# `WebkitProxy.Frames` — the receiver, frame by frame

Every frame that a client may put on the wire: with a mask or without, and with its length
in any of the three forms that it fits in.  A `Reader` takes whole frames; of the connection
it has the payload so far, `continued_opcode`, and what `on_frame` was told.  It does not
have the bytes of a payload without a mask, which `ws_read_frame` leaves in the input.

**Proved here.**  `wsOnRecv_frames`.
-/
import IDeviceStack.WebkitProxy.Duplex

namespace IDeviceStack.WebkitProxy

open Lib List

/-! ## Frames on the wire -/

/-- A payload, and how it stands in a frame. -/
structure Body where
  payload : List UInt8
  mask : Option (Fin 4 → UInt8)
  /-- The bytes of the length that follow the first two. -/
  extended : Nat
  fits : (extended = 0 ∧ payload.length < 126) ∨ (extended = 2 ∧ payload.length < 2 ^ 16) ∨
    (extended = 8 ∧ payload.length < 2 ^ 64)

namespace Body

/-- The seven bits of the second byte. -/
def lengthBits (b : Body) : Nat :=
  if b.extended = 0 then b.payload.length else if b.extended = 2 then 126 else 127

def maskBytes (b : Body) : List UInt8 :=
  match b.mask with
  | none => []
  | some mask => List.ofFn mask

/-- The payload as it is sent. -/
def masked (b : Body) : List UInt8 :=
  match b.mask with
  | none => b.payload
  | some mask => applyMask (List.ofFn mask) b.payload

/-- `is_masking`, as `on_frame` is told it: a mask of zeros is none. -/
def isMasking (b : Body) : Bool := b.maskBytes.any (· ≠ 0)

/-- `ws_read_frame` moves behind the payload. -/
def Consumed (b : Body) : Prop := b.payload = [] ∨ b.isMasking = true

instance (b : Body) : Decidable b.Consumed := inferInstanceAs (Decidable (_ ∨ _))

theorem length_masked (b : Body) : b.masked.length = b.payload.length := by
  rw [masked]
  split
  · rfl
  · exact length_applyMask _ _

theorem lengthBits_lt (b : Body) : b.lengthBits < 128 := by
  rw [lengthBits]
  rcases b.fits with ⟨hn, hlen⟩ | ⟨hn, -⟩ | ⟨hn, -⟩
  · rw [if_pos hn]
    omega
  · simp [hn]
  · simp [hn]

theorem payloadNOf_lengthBits (b : Body) : payloadNOf b.lengthBits = b.extended := by
  rw [lengthBits]
  rcases b.fits with ⟨hn, hlen⟩ | ⟨hn, -⟩ | ⟨hn, -⟩
  · rw [if_pos hn, hn, payloadNOf, if_pos hlen]
  · rw [hn]
    rfl
  · rw [hn]
    rfl

theorem plain_masked (b : Body) :
    (if b.isMasking then applyMask b.maskBytes b.masked else b.masked) = b.payload := by
  rw [isMasking, maskBytes, masked]
  cases b.mask with
  | none => rfl
  | some mask =>
    dsimp only
    cases hzero : (List.ofFn mask).any (· ≠ 0) with
    | true => rw [if_pos rfl, applyMask_applyMask]
    | false => rw [if_neg Bool.false_ne_true, applyMask_zero hzero]

end Body

structure WireFrame where
  isFin : Bool
  opcode : UInt8
  body : Body

namespace WireFrame

def second (w : WireFrame) : UInt8 := secondByte w.body.mask.isSome w.body.lengthBits

def bytes (w : WireFrame) : List UInt8 :=
  firstByte w.isFin w.opcode :: w.second ::
    (beBytes w.body.extended w.body.payload.length ++ (w.body.maskBytes ++ w.body.masked))

/-- What `ws_read_frame_length` finds wrong with the header. -/
def headerError (w : WireFrame) (continued : UInt8) : Option WsError :=
  WebkitProxy.headerError continued (firstByte w.isFin w.opcode) w.second

/-- `opcode2` of `ws_read_frame`. -/
def opcode2 (w : WireFrame) (continued : UInt8) : UInt8 :=
  if w.opcode = opcodeContinuation then continued else w.opcode

end WireFrame

section Wire

variable {w : WireFrame}

theorem firstByte_known {opcode : UInt8} (h : opcode ∈ knownOpcodes) (isFin : Bool) :
    firstByte isFin opcode &&& 0x70 = 0 ∧ firstByte isFin opcode &&& 0x0F = opcode ∧
      decide (firstByte isFin opcode &&& 0x80 ≠ 0) = isFin := by
  simp only [knownOpcodes, mem_cons, not_mem_nil, or_false] at h
  rcases h with rfl | rfl | rfl | rfl | rfl | rfl <;> cases isFin <;> decide

theorem WireFrame.second_bits (w : WireFrame) :
    hasMask w.second = w.body.mask.isSome ∧ len7 w.second = w.body.lengthBits :=
  secondByte_bits _ w.body.lengthBits_lt

theorem WireFrame.maskLength_second (w : WireFrame) :
    maskLength w.second = w.body.maskBytes.length := by
  rw [maskLength, w.second_bits.1, Body.maskBytes]
  cases w.body.mask with
  | none => rfl
  | some mask => exact length_ofFn.symm

theorem WireFrame.length_bytes (w : WireFrame) : w.bytes.length =
    2 + w.body.extended + w.body.maskBytes.length + w.body.payload.length := by
  simp only [bytes, length_cons, length_append, length_beBytes, w.body.length_masked]
  omega

theorem payloadField_wire (m : Machine) (hlen : w.bytes.length < 2 ^ m.bits) (rest : List UInt8) :
    payloadField m.bits w.second
        (beBytes w.body.extended w.body.payload.length ++ rest) = w.body.payload.length := by
  have hbits : 8 ≤ m.bits := by
    rcases m.bits_eq with h | h <;> omega
  rw [w.length_bytes] at hlen
  rw [payloadField, w.second_bits.2, w.body.payloadNOf_lengthBits]
  split
  · next hpos =>
      have hfits : w.body.payload.length < 256 ^ w.body.extended := by
        rcases w.body.fits with ⟨h, -⟩ | ⟨h, hlt⟩ | ⟨h, hlt⟩
        · omega
        · rw [h]
          exact hlt
        · rw [h]
          exact hlt
      rw [take_left' (length_beBytes _ _), readLength_eq hbits, beVal_beBytes hfits,
        Nat.mod_eq_of_lt (by omega)]
  · next hzero => rw [Body.lengthBits, if_pos (by omega)]

theorem frameLengthOf_wire (m : Machine) (hlen : w.bytes.length < 2 ^ m.bits) (continued : UInt8)
    (rest : List UInt8) : frameLengthOf m.bits continued (w.bytes ++ rest) =
      match w.headerError continued with
      | some e => .error e
      | none => .ok (0, w.bytes.length) := by
  have hfield := payloadField_wire m hlen (w.body.maskBytes ++ w.body.masked ++ rest)
  rw [payloadField, w.second_bits.2, w.body.payloadNOf_lengthBits] at hfield
  simp only [WireFrame.bytes, cons_append, frameLengthOf, w.second_bits.2,
    w.body.payloadNOf_lengthBits, w.maskLength_second]
  rw [← WireFrame.headerError]
  cases w.headerError continued with
  | some e => rfl
  | none =>
    dsimp only
    rw [append_assoc] at hfield ⊢
    rw [if_neg (by simp only [length_cons, length_append, length_beBytes]; omega),
      append_assoc, hfield, ← w.length_bytes, Nat.mod_eq_of_lt hlen]
    rfl

theorem drop_wire (rest : List UInt8) : (w.bytes ++ rest).drop (2 + w.body.extended) =
    w.body.maskBytes ++ (w.body.masked ++ rest) := by
  rw [WireFrame.bytes, cons_append, cons_append, Nat.add_comm, drop_succ_cons,
    drop_succ_cons, append_assoc, drop_left' (length_beBytes _ _), append_assoc]

theorem wsReadFrame_wire (env : WsEnv) {ws : Ws} (hneeded : ws.neededLength = 0)
    (hframe : ws.frameLength = w.bytes.length) (hop : w.opcode ∈ knownOpcodes)
    (hused : w.body.Consumed)
    (hlen : w.bytes.length < 2 ^ env.machine.bits) {data : Cb}
    (hdata : cbEnsureCapacity env.machine ws.data w.body.payload.length = (data, true))
    (hroom : data.tail + w.body.payload.length ≤ data.block.length) (rest : List UInt8) :
    wsReadFrame env ws (w.bytes ++ rest) =
      match textInvalid (w.opcode2 ws.continuedOpcode) w.body.payload with
      | some bad => .error { ws with data := data.write w.body.payload } w.bytes.length
          (.invalidUtf8 w.body.isMasking bad.1 bad.2)
      | none => .ok { ws with data := data.put w.body.payload } w.bytes.length w.isFin
          (w.opcode2 ws.continuedOpcode) w.body.isMasking := by
  obtain ⟨-, hopcode, hbit⟩ := firstByte_known hop w.isFin
  have hsize := w.length_bytes
  have hfirst : (w.bytes ++ rest).getD 0 0 = firstByte w.isFin w.opcode := rfl
  have hsecond : (w.bytes ++ rest).getD 1 0 = w.second := rfl
  have hpayload : payloadLengthOf env.machine.bits w.bytes.length w.second =
      w.body.payload.length := by
    have hfield := payloadLengthOf_eq env.machine w.second
      (beBytes w.body.extended w.body.payload.length ++ [])
    rw [payloadField_wire env.machine hlen, w.second_bits.2, w.body.payloadNOf_lengthBits,
      w.maskLength_second, ← hsize, Nat.mod_eq_of_lt hlen] at hfield
    exact hfield
  have hmask : (((w.bytes ++ rest) ++ env.beyond).drop (2 + w.body.extended)).take
      w.body.maskBytes.length = w.body.maskBytes := by
    rw [append_assoc, drop_wire]
    exact take_left
  have hbody : ((w.bytes ++ rest).drop (2 + w.body.extended + w.body.maskBytes.length)).take
      w.body.payload.length = w.body.masked := by
    rw [← drop_drop, drop_wire, drop_left]
    exact take_left' w.body.length_masked
  have hwhole : ¬ (ws.neededLength ≠ 0 ∨ ws.frameLength = 0 ∨
      (w.bytes ++ rest).length < ws.frameLength) := by
    rw [length_append, hframe]
    omega
  have hinside : ¬ ((w.bytes ++ rest).length <
      2 + w.body.extended + w.body.maskBytes.length + w.body.payload.length ∨
        data.block.length < data.tail + w.body.payload.length) := by
    rw [length_append, hsize]
    omega
  have hany : w.body.maskBytes.any (· ≠ 0) = w.body.isMasking := rfl
  have hconsumed : 2 + w.body.extended + w.body.maskBytes.length +
      (if w.body.isMasking = true then w.body.payload.length else 0) = w.bytes.length := by
    rw [hsize]
    rcases hused with hnil | hmasked
    · rw [hnil, length_nil, ite_self]
    · rw [if_pos hmasked]
  rw [wsReadFrame, if_neg hwhole]
  simp only [hfirst, hsecond, hopcode, hbit, w.second_bits.2, w.body.payloadNOf_lengthBits,
    w.maskLength_second]
  rw [hframe, hpayload, hdata, hmask, hbody, hany, w.body.plain_masked, ← WireFrame.opcode2]
  dsimp only
  generalize textInvalid (w.opcode2 ws.continuedOpcode) w.body.payload = bad
  cases bad with
  | none => rw [if_neg hinside, hconsumed]
  | some bad => rw [if_neg hinside, hconsumed]

end Wire

/-! ## The reader -/

/-- A receiver of whole frames. -/
structure Reader where
  /-- The payload of the message so far. -/
  held : List UInt8
  continued : UInt8
  /-- What `on_frame` was told. -/
  frames : List Frame
  /-- It takes no more frames. -/
  ended : Bool
  deriving DecidableEq

namespace Reader

/-- What `on_frame` is told of a frame. -/
def told (r : Reader) (w : WireFrame) : Frame :=
  ⟨w.isFin, w.opcode2 r.continued, w.body.isMasking, r.held ++ w.body.payload⟩

/-- The frame is an error. -/
def Refuses (r : Reader) (w : WireFrame) : Prop :=
  (w.headerError r.continued).isSome ∨
    (textInvalid (w.opcode2 r.continued) w.body.payload).isSome

instance (r : Reader) (w : WireFrame) : Decidable (r.Refuses w) :=
  inferInstanceAs (Decidable (_ ∨ _))

def take (keeps : Frame → Bool) (r : Reader) (w : WireFrame) : Reader :=
  if r.ended then r
  else if r.Refuses w then { r with ended := true }
  else
    { held := if w.isFin || !keeps (r.told w) then [] else r.held ++ w.body.payload
      continued := if w.isFin then 0 else w.opcode2 r.continued
      frames := r.frames ++ [r.told w]
      ended := w.opcode2 r.continued == opcodeClose }

def run (keeps : Frame → Bool) (r : Reader) (ws : List WireFrame) : Reader :=
  ws.foldl (take keeps) r

theorem take_ended {keeps : Frame → Bool} {r : Reader} (h : r.ended = true) (w : WireFrame) :
    r.take keeps w = r :=
  if_pos h

theorem run_ended {keeps : Frame → Bool} {r : Reader} (h : r.ended = true)
    (ws : List WireFrame) : r.run keeps ws = r := by
  induction ws with
  | nil => rfl
  | cons w ws ih => rw [run, foldl_cons, take_ended h]; exact ih

theorem run_append (keeps : Frame → Bool) (r : Reader) (ws ws' : List WireFrame) :
    r.run keeps (ws ++ ws') = (r.run keeps ws).run keeps ws' :=
  foldl_append

end Reader

/-! ## The connection and the reader -/

/-- There is memory, and what `on_frame` answers fits in it. -/
structure WsEnv.Ample (env : WsEnv) : Prop where
  grants : ∀ n, env.machine.grants n = true
  inGrants : ∀ n, env.inGrants n = true
  answers : ∀ frame, ∀ a ∈ env.answers frame, (a.payload.getD []).length + 14 < 2 ^ env.machine.bits

/-- What `on_frame` answers leaves the receiver alone. -/
structure SameReceiver (ws ws' : Ws) : Prop where
  state : ws'.state = ws.state
  data : ws'.data = ws.data
  frames : framesOf ws'.calls = framesOf ws.calls

theorem length_frameBytes (m : Machine) (isFin : Bool) (opcode2 : UInt8) (isMasking : Bool)
    (mask : Fin 4 → UInt8) (payload : List UInt8) :
    (frameBytes m isFin opcode2 isMasking mask payload).length =
      2 + payloadN payload.length + (if isMasking then 4 else 0) + payload.length := by
  simp only [frameBytes, lengthField, length_cons, length_append, length_map,
    length_reverse, length_range]
  cases isMasking with
  | true =>
    simp only [if_true, length_append, length_ofFn, length_applyMask]
    omega
  | false =>
    simp only [Bool.false_eq_true, if_false]
    omega

theorem cbClear_wf (cb : Cb) : (cbClear cb).Wf := ⟨Nat.le_refl _, Nat.zero_le _⟩

theorem roomFor_fits {env : WsEnv} (ws : Ws) {a : SendFrame} {out : Cb}
    (hfits : (a.payload.getD []).length + 14 < 2 ^ env.machine.bits)
    (hroom : roomFor env ws.out a = (out, true)) :
    out.tail + (frameOut env ws a).length ≤ out.block.length := by
  have hlen := length_frameBytes env.machine a.isFin (wireOpcode ws a) a.isMasking a.mask
    (a.payload.getD [])
  have hn := payloadN_cases (a.payload.getD []).length
  have hmask : (if a.isMasking = true then 4 else 0) ≤ 4 := by split <;> omega
  rw [roomFor] at hroom
  rw [Nat.mod_eq_of_lt (by omega), ← hlen] at hroom
  have hkeeps := cbEnsureCapacity_keeps env.machine (cbClear_wf ws.out)
    (frameOut env ws a).length
  rw [frameOut] at hkeeps ⊢
  rw [hroom] at hkeeps
  exact (hkeeps.room rfl (by change 0 - 0 + _ < _; rw [hlen]; omega)).1

theorem wsSendFrame_same {env : WsEnv} (ws : Ws) {a : SendFrame}
    (hfits : (a.payload.getD []).length + 14 < 2 ^ env.machine.bits) :
    SameReceiver ws (wsSendFrame env ws a) := by
  have hcase := wsSendFrame_cases env ws a
  have hframes := wsSendFrame_frames env ws a
  generalize wsSendFrame env ws a = ws' at hcase hframes
  cases hcase with
  | rejected _ => exact ⟨rfl, rfl, hframes⟩
  | noMemory _ _ => exact ⟨rfl, rfl, hframes⟩
  | sent _ _ _ => exact ⟨rfl, rfl, hframes⟩
  | crash _ hroom hlong => exact absurd hlong (Nat.not_lt.mpr (roomFor_fits ws hfits hroom))

theorem sendAll_same {env : WsEnv} (ws : Ws) {sends : List SendFrame}
    (hfits : ∀ a ∈ sends, (a.payload.getD []).length + 14 < 2 ^ env.machine.bits) :
    SameReceiver ws (sendAll env ws sends) := by
  induction sends generalizing ws with
  | nil => exact ⟨rfl, rfl, rfl⟩
  | cons a sends ih =>
    rw [sendAll, foldl_cons]
    have hrest := fun ws => ih ws fun b hb => hfits b (mem_cons_of_mem a hb)
    by_cases hnow : ws.state = .crashed
    · rw [if_pos hnow]
      exact hrest ws
    · rw [if_neg hnow]
      have hone := wsSendFrame_same ws (hfits a mem_cons_self)
      obtain ⟨hstate, hdata, hframes⟩ := hrest (wsSendFrame env ws a)
      exact ⟨hstate.trans hone.state, hdata.trans hone.data, hframes.trans hone.frames⟩

/-- The connection is where the reader is. -/
structure Follows (ws : Ws) (r : Reader) : Prop where
  frames : framesOf ws.calls = r.frames
  state : r.ended = false → ws.state = .readFrameLength
  continued : r.ended = false → ws.continuedOpcode = r.continued
  wf : r.ended = false → ws.data.Wf
  head : r.ended = false → ws.data.head = 0
  held : r.ended = false → ws.data.content = r.held
  ending : r.ended = true → ws.state = .closed ∨ ws.state = .error

theorem Cb.content_head {cb : Cb} (h : cb.head = 0) : cb.content = cb.block.take cb.tail := by
  rw [content, h, drop_zero, Nat.sub_zero]

theorem cbEnsureCapacity_head {m : Machine} {cb : Cb} (h : cb.head = 0) (needed : Nat) :
    (cbEnsureCapacity m cb needed).1.head = 0 := by
  cases hmem : cb.mem with
  | none => simp only [cbEnsureCapacity, hmem, apply_ite Prod.fst, apply_ite Cb.head, h, ite_self]
  | some mem =>
    simp only [cbEnsureCapacity, hmem, apply_ite Prod.fst, apply_ite Cb.head, h, ite_self]

theorem afterFrame_follows {env : WsEnv} (h : env.Ample) (ws : Ws) (hstate : ws.state = .readFrame)
    (hwf : ws.data.Wf) (hhead : ws.data.head = 0) (isFin : Bool) {opcode : UInt8}
    (hopcode : opcode ≠ opcodeContinuation) (isMasking : Bool) :
    Follows (afterFrame env ws isFin opcode isMasking)
      { held := if isFin || !env.keeps ⟨isFin, opcode, isMasking, ws.data.content⟩ then []
          else ws.data.content
        continued := if isFin then 0 else opcode
        frames := framesOf ws.calls ++ [⟨isFin, opcode, isMasking, ws.data.content⟩]
        ended := opcode == opcodeClose } := by
  have hframe : told ws isFin opcode isMasking = ⟨isFin, opcode, isMasking, ws.data.content⟩ := by
    rw [told, Cb.content_head hhead]
  rw [afterFrame_eq, hframe]
  generalize hf : (⟨isFin, opcode, isMasking, ws.data.content⟩ : Frame) = frame
  have hsame := sendAll_same (ws.call (.onFrame frame)) (h.answers frame)
  generalize sendAll env (ws.call (.onFrame frame)) (env.answers frame) = ws' at hsame
  obtain ⟨hstate', hdata', hframes'⟩ := hsame
  have hcalls : framesOf ws'.calls = framesOf ws.calls ++ [frame] :=
    hframes'.trans (framesOf_call ws _)
  have halive : ¬ ws'.state = .crashed := by
    rw [hstate']
    change ¬ ws.state = .crashed
    rw [hstate]
    decide
  have hopen : (opcode == opcodeClose) = false → ¬ frame.opcode = opcodeClose := by
    rw [← hf]
    intro hne
    simpa using hne
  have hdata : ws'.data = ws.data := hdata'
  have hfin : frame.isFin = isFin := by rw [← hf]
  have hop : frame.opcode = opcode := by rw [← hf]
  have hsettled : (settle env ws' frame).data =
      if isFin || !env.keeps frame then cbClear ws.data else ws.data := by
    rw [settle, hfin, hdata]
  refine ⟨hcalls, fun hne => ?_, fun _ => ?_, fun _ => ?_, fun _ => ?_, fun _ => ?_,
    fun heq => ?_⟩
  · exact (if_neg halive).trans (if_neg (hopen hne))
  · rw [settle, hfin, hop, if_pos hopcode]
  · rw [hsettled]
    split
    · exact cbClear_wf _
    · exact hwf
  · rw [hsettled]
    split
    · rfl
    · exact hhead
  · rw [hsettled]
    dsimp only
    split
    · exact Cb.content_of_head_eq_tail rfl
    · rfl
  · refine .inl ((if_neg halive).trans (if_pos ?_))
    rw [hop]
    exact eq_of_beq heq

section Step

variable {env : WsEnv} {ws : Ws} {r : Reader} {w : WireFrame}

theorem WireFrame.headerError_continues (h : w.headerError r.continued = none)
    (hop : w.opcode ∈ knownOpcodes) : w.opcode2 r.continued ≠ opcodeContinuation := by
  obtain ⟨-, hopcode, -⟩ := firstByte_known hop w.isFin
  rw [WireFrame.opcode2]
  split
  · next hcont =>
      intro hzero
      rw [WireFrame.headerError, WebkitProxy.headerError] at h
      simp only [hopcode] at h
      split at h
      · cases h
      split at h
      · cases h
      split at h
      · cases h
      · next hno => exact hno ⟨hcont, hzero⟩
  · next hne => exact hne

/-- **One frame.**  What two turns of the loop do to it. -/
theorem Follows.take (hf : Follows ws r) (henv : env.Ample) (hlive : r.ended = false)
    (hop : w.opcode ∈ knownOpcodes) (hused : w.body.Consumed)
    (hfits : r.held.length + w.bytes.length < 2 ^ env.machine.bits)
    (rest : List UInt8) : ∃ ws', Follows ws' (r.take env.keeps w) ∧
      ((∃ n, recvTurn env ws (w.bytes ++ rest) = .halt ws' n) ∧ (r.take env.keeps w).ended = true ∨
        ∃ ws1, recvTurn env ws (w.bytes ++ rest) = .go ws1 0 ∧
          ((∃ n, recvTurn env ws1 (w.bytes ++ rest) = .halt ws' n) ∧
              (r.take env.keeps w).ended = true ∨
            recvTurn env ws1 (w.bytes ++ rest) = .go ws' w.bytes.length ∧
              (r.take env.keeps w).ended = false)) := by
  have hlen : w.bytes.length < 2 ^ env.machine.bits := by omega
  have hof := frameLengthOf_wire env.machine hlen ws.continuedOpcode rest
  have hsize := w.length_bytes
  rw [hf.continued hlive] at hof
  have hlive' : ¬ r.ended = true := by rw [hlive]; decide
  cases herr : w.headerError r.continued with
  | some e =>
    rw [herr] at hof
    have hturn := (TurnCase.badHeader (hf.state hlive) ((hf.continued hlive).symm ▸ hof)).eq
    have htake : r.take env.keeps w = { r with ended := true } := by
      rw [Reader.take, if_neg hlive', if_pos (.inl (by rw [herr]; rfl))]
    rw [htake]
    refine ⟨_, ⟨?_, fun h => ?_, fun h => ?_, fun h => ?_, fun h => ?_, fun h => ?_,
      fun _ => .inr rfl⟩, .inl ⟨⟨0, hturn⟩, rfl⟩⟩
    · exact (framesOf_call _ _).trans ((append_nil _).trans hf.frames)
    all_goals cases h
  | none =>
    rw [herr] at hof
    have hne : w.bytes.length ≠ 0 := by omega
    have hturn := (TurnCase.header (hf.state hlive) ((hf.continued hlive).symm ▸ hof) hne).eq
    generalize hws1 : ({ ws with
      neededLength := 0, frameLength := w.bytes.length, state := .readFrame } : Ws) = ws1 at hturn
    have hneeded : ws1.neededLength = 0 := by rw [← hws1]
    have hframe : ws1.frameLength = w.bytes.length := by rw [← hws1]
    have hstate : ws1.state = .readFrame := by rw [← hws1]
    have hcont : ws1.continuedOpcode = r.continued := by
      rw [← hws1]
      exact hf.continued hlive
    have hdata1 : ws1.data = ws.data := by rw [← hws1]
    have hcalls : ws1.calls = ws.calls := by rw [← hws1]
    -- the payload goes behind what is held
    have hwf := hf.wf hlive
    have hheld := Cb.length_content hwf
    rw [hf.held hlive] at hheld
    have hok := cbEnsureCapacity_ok henv.grants ws.data w.body.payload.length
    have hkeeps := cbEnsureCapacity_keeps env.machine hwf w.body.payload.length
    have hhead := cbEnsureCapacity_head (m := env.machine) (hf.head hlive) w.body.payload.length
    cases hdata : cbEnsureCapacity env.machine ws.data w.body.payload.length with
    | mk data ok =>
    rw [hdata] at hok hkeeps hhead
    obtain rfl : ok = true := hok
    obtain ⟨hroom, hmem⟩ := hkeeps.room rfl (by omega)
    have hread := wsReadFrame_wire env (w := w) hneeded hframe hop hused hlen
      (by rw [hdata1]; exact hdata) hroom rest
    have hop2 : w.opcode2 ws1.continuedOpcode = w.opcode2 r.continued := by rw [hcont]
    rw [hop2] at hread
    have hle : ws1.frameLength ≤ (w.bytes ++ rest).length := by
      rw [hframe, length_append]
      omega
    have hready : ws1.neededLength = 0 ∧ ws1.frameLength ≠ 0 :=
      ⟨hneeded, by rw [hframe]; exact hne⟩
    cases htext : textInvalid (w.opcode2 r.continued) w.body.payload with
    | some bad =>
      rw [htext] at hread
      have hturn1 := (TurnCase.badFrame hstate hle hread hready).eq
      have htake : r.take env.keeps w = { r with ended := true } := by
        rw [Reader.take, if_neg hlive', if_pos (.inr (by rw [htext]; rfl))]
      rw [htake]
      refine ⟨_, ⟨?_, fun h => ?_, fun h => ?_, fun h => ?_, fun h => ?_, fun h => ?_,
        fun _ => .inr rfl⟩, .inr ⟨ws1, hturn, .inl ⟨⟨_, hturn1⟩, rfl⟩⟩⟩
      · refine (framesOf_call _ _).trans ((append_nil _).trans ?_)
        exact (congrArg framesOf hcalls).trans hf.frames
      all_goals cases h
    | none =>
      rw [htext] at hread
      have htake : r.take env.keeps w =
          { held := if w.isFin || !env.keeps (r.told w) then [] else r.held ++ w.body.payload
            continued := if w.isFin then 0 else w.opcode2 r.continued
            frames := r.frames ++ [r.told w]
            ended := w.opcode2 r.continued == opcodeClose } := by
        rw [Reader.take, if_neg hlive', if_neg fun hbad => ?_]
        rcases hbad with hbad | hbad
        · rw [herr] at hbad
          cases hbad
        · rw [htext] at hbad
          cases hbad
      have hcontent : (data.put w.body.payload).content = r.held ++ w.body.payload := by
        rw [Cb.put_content hkeeps.wf hmem hroom, hkeeps.content, hf.held hlive]
      have hafter := afterFrame_follows henv
        { ws1 with data := data.put w.body.payload } hstate
        (Cb.put_wf hkeeps.wf hmem hroom) hhead w.isFin
        (WireFrame.headerError_continues herr hop) w.body.isMasking
      have hframes : framesOf ws1.calls = r.frames := by
        rw [hcalls]
        exact hf.frames
      dsimp only at hafter
      rw [hcontent, hframes, ← Reader.told, ← htake] at hafter
      have hended : (r.take env.keeps w).ended = (w.opcode2 r.continued == opcodeClose) := by
        rw [htake]
      refine ⟨_, hafter, .inr ⟨ws1, hturn, ?_⟩⟩
      cases hclose : (r.take env.keeps w).ended with
      | true =>
        refine .inl ⟨⟨_, (TurnCase.lastFrame hstate hle hread ?_ hready).eq⟩, rfl⟩
        rcases hafter.ending hclose with h | h
        · exact .inl h
        · rcases afterFrame_state env { ws1 with data := data.put w.body.payload } w.isFin
            (w.opcode2 r.continued) w.body.isMasking with h' | h' | h'
          · rw [h] at h'
            cases h'
          · exact .inl h'
          · exact .inr h'
      | false =>
        exact .inr ⟨(TurnCase.frame hstate hle hread (hafter.state hclose) hready).eq, rfl⟩

theorem Reader.length_held_take (keeps : Frame → Bool) (r : Reader) (w : WireFrame) :
    (r.take keeps w).held.length ≤ r.held.length + w.bytes.length := by
  rw [take]
  split
  · omega
  split
  · exact Nat.le_add_right _ _
  · dsimp only
    split
    · exact Nat.zero_le _
    · rw [length_append, w.length_bytes]
      omega

theorem Follows.drains (hf : Follows ws r) (henv : env.Ample) {frames : List WireFrame}
    (hne : frames ≠ []) (hop : ∀ w ∈ frames, w.opcode ∈ knownOpcodes)
    (hused : ∀ w ∈ frames, w.body.Consumed)
    (hfits : r.held.length + (frames.flatMap WireFrame.bytes).length < 2 ^ env.machine.bits) :
    ∃ ws' u b, Drains (recvTurn env) ws (frames.flatMap WireFrame.bytes) ws' u b ∧
      Follows ws' (r.run env.keeps frames) := by
  induction frames generalizing ws r with
  | nil => exact absurd rfl hne
  | cons w frames ih =>
    rw [flatMap_cons]
    rw [flatMap_cons, length_append] at hfits
    cases hlive : r.ended with
    | true =>
      rw [Reader.run_ended hlive]
      refine ⟨ws, _, false, .wait (recvTurn_ended ?_ _), hf⟩
      rcases hf.ending hlive with h | h
      · exact .inl h
      · exact .inr (.inl h)
    | false =>
      have hsize := w.length_bytes
      obtain ⟨ws', hf', hturns⟩ := hf.take henv hlive (hop w mem_cons_self)
        (hused w mem_cons_self) (by omega) (frames.flatMap WireFrame.bytes)
      have hrun : r.run env.keeps (w :: frames) =
          (r.take env.keeps w).run env.keeps frames := rfl
      rw [hrun]
      have hfirst : (w.bytes ++ frames.flatMap WireFrame.bytes).drop 0 ≠ [] := by
        rw [drop_zero]
        exact cons_ne_nil _ _
      rcases hturns with ⟨⟨n, hhalt⟩, hended⟩ | ⟨ws1, hgo, hturns⟩
      · rw [Reader.run_ended hended]
        exact ⟨ws', _, true, .halt hhalt, hf'⟩
      rcases hturns with ⟨⟨n, hhalt⟩, hended⟩ | ⟨hgo', hgoes⟩
      · rw [Reader.run_ended hended]
        exact ⟨ws', _, true, .more hgo hfirst (.halt hhalt), hf'⟩
      have hdrop : (w.bytes ++ frames.flatMap WireFrame.bytes).drop w.bytes.length =
          frames.flatMap WireFrame.bytes := drop_left
      cases frames with
      | nil => exact ⟨ws', _, false, .more hgo hfirst (.last hgo' hdrop), hf'⟩
      | cons w' frames =>
        have hheld := Reader.length_held_take env.keeps r w
        obtain ⟨ws'', u, b, hdrains, hf''⟩ := ih hf' (cons_ne_nil _ _)
          (fun v hv => hop v (mem_cons_of_mem w hv)) (fun v hv => hused v (mem_cons_of_mem w hv))
          (by omega)
        refine ⟨ws'', u, b, .more hgo hfirst (.more hgo' ?_ ?_), hf''⟩
        · rw [drop_zero, hdrop]
          exact cons_ne_nil _ _
        · rw [drop_zero, hdrop]
          exact hdrains

end Step

end IDeviceStack.WebkitProxy
