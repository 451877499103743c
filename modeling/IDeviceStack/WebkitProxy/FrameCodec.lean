/-
# `WebkitProxy.FrameCodec` — what is sent is what is read

The encoder `ws_send_frame` against the two decoders: `ws_read_frame_length`,
which finds the end of a frame from its first bytes, and `ws_read_frame`, which
takes the frame apart.  Each of the three computes the layout for itself.

**Proved here.**  `wsReadFrame_wsSendFrame_iff`.
-/
import IDeviceStack.WebkitProxy.Websocket

namespace IDeviceStack.WebkitProxy

open Lib List

theorem Machine.two_pow_bits_le (m : Machine) : 2 ^ 32 ≤ 2 ^ m.bits := by
  rcases m.bits_eq with h | h
  · rw [h]
  · rw [h]
    decide

/-! ## The length field -/

theorem leBytes_eq_map (n x : Nat) :
    leBytes n x = (List.range n).map fun j => UInt8.ofNat (x >>> (8 * j)) := by
  induction n generalizing x with
  | zero => rfl
  | succ n ih =>
    rw [leBytes, ih, range_succ_eq_map, map_cons, map_map]
    congr 1
    apply map_congr_left
    intro j _
    rw [Function.comp_apply, Nat.succ_eq_add_one, Nat.mul_add, Nat.mul_one, Nat.add_comm,
      Nat.shiftRight_add, Nat.shiftRight_eq_div_pow x 8]

theorem lengthField_eq {memSize x : Nat} (hx : x < 2 ^ (8 * memSize)) (n : Nat) :
    lengthField memSize n x = beBytes n x := by
  rw [← reverse_leBytes, leBytes_eq_map, ← map_reverse, lengthField]
  apply map_congr_left
  intro j _
  have hshift : j <<< 3 = 8 * j := by
    rw [Nat.shiftLeft_eq]
    omega
  rw [hshift]
  split
  · next hj =>
      have hzero : x >>> (8 * j) = 0 := by
        rw [Nat.shiftRight_eq_div_pow]
        exact Nat.div_eq_of_lt (Nat.lt_of_lt_of_le hx (Nat.pow_le_pow_right (by omega) (by omega)))
      rw [hzero]
      rfl
  · rfl

theorem readLength_eq {bits : Nat} (hbits : 8 ≤ bits) (bytes : List UInt8) :
    readLength bits bytes = beVal bytes % 2 ^ bits := by
  induction bytes using reverseRecOn with
  | nil => exact (Nat.zero_mod _).symm
  | append_singleton bytes b ih =>
    have hb := b.toNat_lt
    obtain ⟨k, rfl⟩ : ∃ k, bits = k + 8 := ⟨bits - 8, by omega⟩
    have hpow : 2 ^ (k + 8) = 2 ^ k * 2 ^ 8 := pow_add _ _ _
    have hhigh : (beVal bytes % 2 ^ (k + 8)) <<< 8 % 2 ^ (k + 8) = (beVal bytes % 2 ^ k) <<< 8 := by
      rw [Nat.shiftLeft_eq, Nat.shiftLeft_eq, hpow, Nat.mul_mod_mul_right,
        Nat.mod_mod_of_dvd _ (Nat.dvd_mul_right _ _)]
    have hfold : readLength (k + 8) (bytes ++ [b])
        = readLength (k + 8) bytes <<< 8 % 2 ^ (k + 8) ||| b.toNat := by
      simp only [readLength, foldl_append, foldl_cons, foldl_nil]
    have hlow : (beVal bytes * 256 + b.toNat) % (2 ^ k * 256) = beVal bytes % 2 ^ k * 256 + b.toNat := by
      have hr := Nat.mod_lt (beVal bytes) (Nat.two_pow_pos k)
      have hsplit : beVal bytes * 256 + b.toNat
          = 2 ^ k * 256 * (beVal bytes / 2 ^ k) + (beVal bytes % 2 ^ k * 256 + b.toNat) := by
        conv_lhs => rw [← Nat.div_add_mod (beVal bytes) (2 ^ k)]
        ring
      rw [hsplit, Nat.mul_add_mod, Nat.mod_eq_of_lt (by omega)]
    rw [hfold, ih, hhigh, ← Nat.shiftLeft_add_eq_or_of_lt (show b.toNat < 2 ^ 8 by omega),
      beVal_snoc, Nat.shiftLeft_eq, hpow]
    exact hlow.symm

/-! ## Masks -/

@[simp] theorem length_applyMask (mask payload : List UInt8) :
    (applyMask mask payload).length = payload.length := by
  rw [applyMask, length_mapIdx]

theorem applyMask_applyMask (mask payload : List UInt8) :
    applyMask mask (applyMask mask payload) = payload := by
  apply ext_getElem
  · rw [length_applyMask, length_applyMask]
  · intro i _ _
    simp only [applyMask, getElem_mapIdx]
    rw [UInt8.xor_assoc, UInt8.xor_self, UInt8.xor_zero]

theorem applyMask_zero {mask : List UInt8} (h : mask.any (· ≠ 0) = false) (payload : List UInt8) :
    applyMask mask payload = payload := by
  have hzero : ∀ j, mask.getD j 0 = 0 := by
    intro j
    rw [getD_eq_getElem?_getD]
    cases hj : mask[j]? with
    | none => rfl
    | some b =>
      have hb := mem_of_getElem? hj
      simpa using any_eq_false.mp h b hb
  apply ext_getElem
  · rw [length_applyMask]
  · intro i _ _
    simp only [applyMask, getElem_mapIdx, hzero, UInt8.xor_zero]

/-! ## The first two bytes -/

def firstByte (isFin : Bool) (opcode2 : UInt8) : UInt8 :=
  (if isFin then 0x80 else 0) ||| (opcode2 &&& 0x0F)

def secondByte (isMasking : Bool) (bits : Nat) : UInt8 :=
  (if isMasking then 0x80 else 0) ||| UInt8.ofNat bits

/-- The opcodes of the frames that begin a message, and of the control frames. -/
def leadingOpcodes : List UInt8 := [opcodeText, opcodeBinary, opcodeClose, opcodePing, opcodePong]

theorem firstByte_bits {opcode : UInt8} (h : opcode ∈ leadingOpcodes) (isFin : Bool) :
    firstByte isFin opcode &&& 0x70 = 0 ∧ firstByte isFin opcode &&& 0x0F = opcode ∧
      decide (firstByte isFin opcode &&& 0x80 ≠ 0) = isFin := by
  simp only [leadingOpcodes, mem_cons, not_mem_nil, or_false] at h
  rcases h with rfl | rfl | rfl | rfl | rfl <;> cases isFin <;> decide

theorem secondByte_bits (isMasking : Bool) {n : Nat} (h : n < 128) :
    hasMask (secondByte isMasking n) = isMasking ∧ len7 (secondByte isMasking n) = n := by
  have hall : ∀ b : Bool, ∀ i : Fin 128,
      hasMask (secondByte b i) = b ∧ len7 (secondByte b i) = i := by decide
  exact hall isMasking ⟨n, h⟩

/-- The seven bits of the second byte. -/
def lengthBits (payloadLength : Nat) : Nat :=
  if payloadN payloadLength = 0 then payloadLength
  else if payloadN payloadLength = 2 then 126 else 127

theorem payloadN_cases (len : Nat) :
    (payloadN len = 0 ∧ len < 126) ∨ (payloadN len = 2 ∧ 126 ≤ len ∧ len < 65535) ∨
      (payloadN len = 8 ∧ 65535 ≤ len) := by
  rw [payloadN]
  split
  · exact .inl ⟨rfl, by omega⟩
  · split
    · exact .inr (.inl ⟨rfl, by omega, by omega⟩)
    · exact .inr (.inr ⟨rfl, by omega⟩)

theorem lengthBits_lt (len : Nat) : lengthBits len < 128 := by
  rw [lengthBits]
  rcases payloadN_cases len with ⟨hn, hlen⟩ | ⟨hn, -⟩ | ⟨hn, -⟩
  · rw [if_pos hn]
    omega
  · simp [hn]
  · simp [hn]

theorem payloadNOf_lengthBits (len : Nat) : payloadNOf (lengthBits len) = payloadN len := by
  rw [lengthBits]
  rcases payloadN_cases len with ⟨hn, hlen⟩ | ⟨hn, -⟩ | ⟨hn, -⟩
  · rw [if_pos hn, hn, payloadNOf, if_pos hlen]
  · rw [hn]
    rfl
  · rw [hn]
    rfl

theorem lt_pow_payloadN {len : Nat} (hlen : len < 2 ^ 31) (hn : payloadN len > 0) :
    len < 256 ^ payloadN len := by
  rcases payloadN_cases len with ⟨h, -⟩ | ⟨h, -, hlt⟩ | ⟨h, -⟩
  · omega
  · rw [h]
    omega
  · rw [h]
    omega

/-! ## The layout -/

/-- What comes behind the length: the mask, if there is one, and the payload. -/
def frameTail (isMasking : Bool) (mask : Fin 4 → UInt8) (payload : List UInt8) : List UInt8 :=
  if isMasking then List.ofFn mask ++ applyMask (List.ofFn mask) payload else payload

theorem length_frameTail (isMasking : Bool) (mask : Fin 4 → UInt8) (payload : List UInt8) :
    (frameTail isMasking mask payload).length = (if isMasking then 4 else 0) + payload.length := by
  cases isMasking with
  | true =>
    rw [frameTail, if_pos rfl, if_pos rfl, length_append, length_ofFn, length_applyMask]
  | false => exact (Nat.zero_add _).symm

/-- The frame, with the length field as the bytes of the length. -/
def layout (isFin : Bool) (opcode : UInt8) (isMasking : Bool) (mask : Fin 4 → UInt8)
    (payload : List UInt8) : List UInt8 :=
  firstByte isFin opcode :: secondByte isMasking (lengthBits payload.length) ::
    (beBytes (payloadN payload.length) payload.length ++ frameTail isMasking mask payload)

theorem length_layout (isFin : Bool) (opcode : UInt8) (isMasking : Bool) (mask : Fin 4 → UInt8)
    (payload : List UInt8) :
    (layout isFin opcode isMasking mask payload).length
      = 2 + payloadN payload.length + (if isMasking then 4 else 0) + payload.length := by
  simp only [layout, length_cons, length_append, length_beBytes, length_frameTail]
  omega

theorem frameBytes_eq (m : Machine) (isFin : Bool) (opcode : UInt8) (isMasking : Bool)
    (mask : Fin 4 → UInt8) {payload : List UInt8} (hlen : payload.length < 2 ^ 31) :
    frameBytes m isFin opcode isMasking mask payload
      = layout isFin opcode isMasking mask payload := by
  have hfits : payload.length < 2 ^ (8 * (m.bits / 8)) := by
    rcases m.bits_eq with h | h
    · rw [h]
      omega
    · rw [h]
      omega
  have hbits : (if payloadN payload.length = 0 then UInt8.ofNat payload.length
      else if payloadN payload.length = 2 then 126 else 127)
        = UInt8.ofNat (lengthBits payload.length) := by
    rw [lengthBits]
    split
    · rfl
    · split
      · rfl
      · rfl
  rw [frameBytes, hbits, lengthField_eq hfits]
  rfl

theorem headerError_none {opcode : UInt8} (hopcode : opcode ∈ leadingOpcodes) {isFin : Bool}
    (hfin : isControl opcode = true → isFin = true) (isMasking : Bool) {len : Nat}
    (hshort : isControl opcode = true → len ≤ 125) :
    headerError 0 (firstByte isFin opcode) (secondByte isMasking (lengthBits len)) = none := by
  obtain ⟨hreserved, hop, hbit⟩ := firstByte_bits hopcode isFin
  obtain ⟨-, hlen7⟩ := secondByte_bits isMasking (lengthBits_lt len)
  have hknown : opcode ∈ knownOpcodes := mem_cons_of_mem _ hopcode
  have hne : opcode ≠ opcodeContinuation := by
    intro h
    rw [h] at hopcode
    revert hopcode
    decide
  have hlen : isControl opcode = true → ¬ lengthBits len > 125 := by
    intro hcontrol
    have hle := hshort hcontrol
    rw [lengthBits, if_pos (by rw [payloadN, if_pos (by omega)])]
    omega
  have hset : isControl opcode = true → firstByte isFin opcode &&& 0x80 ≠ 0 := by
    intro hcontrol
    have h := hfin hcontrol
    subst h
    exact of_decide_eq_true hbit
  simp only [headerError, hop, hlen7]
  rw [if_neg (not_not.mpr hreserved), if_neg (not_not.mpr hknown), if_neg (fun h => h.2 (hset h.1)),
    if_neg (fun h => hne h.1), if_neg (fun h => h.2.2 rfl), if_neg (fun h => hlen h.1 h.2)]

section Frame

variable {opcode : UInt8} {isFin : Bool} {len : Nat}

theorem maskLength_secondByte (isMasking : Bool) : maskLength (secondByte isMasking (lengthBits len))
    = if isMasking then 4 else 0 := by
  rw [maskLength, (secondByte_bits isMasking (lengthBits_lt len)).1]

theorem frameLengthOf_frame (m : Machine) (isMasking : Bool) (hopcode : opcode ∈ leadingOpcodes)
    (hfin : isControl opcode = true → isFin = true) (hshort : isControl opcode = true → len ≤ 125)
    (hlen : len < 2 ^ 31) {w : List UInt8}
    (hfield : payloadN len ≤ w.length → w.take (payloadN len) = beBytes (payloadN len) len) :
    frameLengthOf m.bits 0
        (firstByte isFin opcode :: secondByte isMasking (lengthBits len) :: w) =
      if w.length < payloadN len then .ok (2 + payloadN len, 0)
      else .ok (0, 2 + payloadN len + (if isMasking then 4 else 0) + len) := by
  have hpow := m.two_pow_bits_le
  have hbits : 8 ≤ m.bits := by
    rcases m.bits_eq with h | h <;> omega
  obtain ⟨-, hlen7⟩ := secondByte_bits isMasking (lengthBits_lt len)
  have hn : payloadN len ≤ 8 := by
    rcases payloadN_cases len with ⟨h, -⟩ | ⟨h, -⟩ | ⟨h, -⟩ <;> omega
  simp only [frameLengthOf, headerError_none hopcode hfin isMasking hshort, hlen7,
    payloadNOf_lengthBits, maskLength_secondByte, length_cons]
  by_cases hw : w.length < payloadN len
  · rw [if_pos (by omega), if_pos hw]
  · rw [if_neg (by omega), if_neg hw]
    have hpayload : (if payloadN len > 0 then readLength m.bits (w.take (payloadN len))
        else lengthBits len) = len := by
      split
      · next hpos =>
          have hfits := lt_pow_payloadN hlen hpos
          rw [hfield (by omega), readLength_eq hbits, beVal_beBytes hfits,
            Nat.mod_eq_of_lt (by omega)]
      · next hzero => rw [lengthBits, if_pos (by omega)]
    rw [hpayload, Nat.mod_eq_of_lt]
    split <;> omega

theorem payloadLengthOf_frame (m : Machine) (isMasking : Bool) (hlen : len < 2 ^ 31) :
    payloadLengthOf m.bits (2 + payloadN len + (if isMasking then 4 else 0) + len)
      (secondByte isMasking (lengthBits len)) = len := by
  have hpow := m.two_pow_bits_le
  obtain ⟨-, hlen7⟩ := secondByte_bits isMasking (lengthBits_lt len)
  simp only [payloadLengthOf, hlen7, payloadNOf_lengthBits, maskLength_secondByte]
  split
  · next hpos =>
      have hsub : 2 + payloadN len + (if isMasking = true then 4 else 0) + len + 2 ^ m.bits
          - (2 + (if isMasking = true then 4 else 0) + payloadN len) = len + 2 ^ m.bits := by
        omega
      rw [hsub, Nat.add_mod_right, Nat.mod_eq_of_lt (by omega)]
  · next hzero => rw [lengthBits, if_pos (by omega)]

end Frame

/-! ## The round trip -/

theorem sendError_none {ws : Ws} {a : SendFrame} {payload : List UInt8}
    (hidle : ws.continuedOpcode = 0) (hpayload : a.payload = some payload)
    (h : sendError ws a = none) :
    (isControl a.opcode = true → a.isFin = true) ∧
      (isControl a.opcode = true → payload.length ≤ 125) ∧
      textInvalid a.opcode payload = none := by
  simp only [sendError, hpayload, hidle, ne_eq, not_true_eq_false, and_false, false_and, if_false] at h
  split at h
  · cases h
  · split at h
    · cases h
    · split at h
      · cases h
      · split at h
        · cases h
        · next hfin hlong =>
            refine ⟨fun hc => ?_, fun hc => ?_, Option.map_eq_none_iff.mp h⟩
            · by_contra hf
              exact hfin ⟨hc, hf⟩
            · by_contra hl
              exact hlong ⟨hc, by omega⟩

theorem wsSendFrame_sent {env : WsEnv} {ws : Ws} {a : SendFrame} {payload bytes : List UInt8}
    (hidle : ws.continuedOpcode = 0) (hpayload : a.payload = some payload)
    (hsent : (wsSendFrame env ws a).calls = ws.calls ++ [.sendData bytes]) :
    bytes = frameBytes env.machine a.isFin a.opcode a.isMasking a.mask payload ∧
      sendError ws a = none := by
  have hopcode2 : (if ¬ isControl a.opcode = true ∧ ws.continuedOpcode ≠ 0 then opcodeContinuation
      else a.opcode) = a.opcode := if_neg fun h => h.2 hidle
  rw [wsSendFrame] at hsent
  cases herr : sendError ws a with
  | some e =>
    simp only [herr] at hsent
    have hcalls := append_cancel_left hsent
    simp at hcalls
  | none =>
    refine ⟨?_, rfl⟩
    simp only [herr, hpayload, Option.getD_some, hopcode2] at hsent
    split at hsent
    · have hcalls := append_cancel_left hsent
      simp at hcalls
    · split at hsent
      · simp at hsent
      · have hcalls := append_cancel_left hsent
        simpa using hcalls.symm

theorem cbNew_takes {m : Machine} {payload : List UInt8} (hlen : payload.length < 2 ^ 31)
    (hgrants : m.grants (max payload.length minLength) = true) :
    ∃ data, cbEnsureCapacity m cbNew payload.length = (data, true) ∧
      data.tail + payload.length ≤ data.block.length ∧ (data.put payload).content = payload := by
  have hpow := m.two_pow_bits_le
  have hsize : (if payload.length > minLength then payload.length else minLength)
      = max payload.length minLength := by
    split <;> omega
  have hkeeps := cbEnsureCapacity_keeps m cbNew_wf payload.length
  have hok : (cbEnsureCapacity m cbNew payload.length).2 = true := by
    simp only [cbEnsureCapacity, cbNew, hsize, hgrants, if_true]
  obtain ⟨hroom, hmem⟩ := hkeeps.room hok (by
    change 0 - 0 + payload.length < _
    omega)
  refine ⟨_, Prod.ext rfl hok, hroom, ?_⟩
  rw [Cb.put_content hkeeps.wf hmem hroom, hkeeps.content, cbNew_content, nil_append]

section Layout

variable {opcode : UInt8} {isFin : Bool} {isMasking : Bool} {mask : Fin 4 → UInt8}
  {payload : List UInt8}

theorem drop_layout (rest : List UInt8) :
    (layout isFin opcode isMasking mask payload ++ rest).drop (2 + payloadN payload.length)
      = frameTail isMasking mask payload ++ rest := by
  rw [layout, cons_append, cons_append, Nat.add_comm, drop_succ_cons,
    drop_succ_cons, append_assoc, drop_left' (length_beBytes _ _)]

theorem wsReadFrameLength_layout (m : Machine) (hopcode : opcode ∈ leadingOpcodes)
    (hfin : isControl opcode = true → isFin = true)
    (hshort : isControl opcode = true → payload.length ≤ 125) (hlen : payload.length < 2 ^ 31)
    (rest : List UInt8) :
    wsReadFrameLength m.bits wsUpgraded (layout isFin opcode isMasking mask payload ++ rest)
      = ({ wsUpgraded with frameLength := (layout isFin opcode isMasking mask payload).length },
          none) := by
  have hfield : ∀ tail : List UInt8, (beBytes (payloadN payload.length) payload.length ++ tail).take
      (payloadN payload.length) = beBytes (payloadN payload.length) payload.length := by
    intro tail
    exact take_left' (length_beBytes _ _)
  have hof := frameLengthOf_frame m isMasking hopcode hfin hshort hlen
    (w := beBytes (payloadN payload.length) payload.length ++ (frameTail isMasking mask payload ++ rest))
    fun _ => hfield _
  rw [if_neg (by rw [length_append, length_beBytes]; omega)] at hof
  rw [layout, cons_append, cons_append, append_assoc, wsReadFrameLength,
    show wsUpgraded.continuedOpcode = 0 from rfl, hof, ← length_layout isFin opcode isMasking mask]
  rfl

theorem wsReadFrameLength_take (m : Machine) (hopcode : opcode ∈ leadingOpcodes)
    (hfin : isControl opcode = true → isFin = true)
    (hshort : isControl opcode = true → payload.length ≤ 125) (hlen : payload.length < 2 ^ 31)
    {k : Nat} (hk : k < (layout isFin opcode isMasking mask payload).length) :
    ∃ ws', wsReadFrameLength m.bits wsUpgraded
        ((layout isFin opcode isMasking mask payload).take k) = (ws', none) ∧
      (ws'.neededLength ≠ 0 ∨ k < ws'.frameLength) := by
  rcases k with _ | _ | k
  · exact ⟨_, rfl, .inl (by decide)⟩
  · exact ⟨_, rfl, .inl (by decide)⟩
  rw [length_layout] at hk
  generalize hw : (beBytes (payloadN payload.length) payload.length
    ++ frameTail isMasking mask payload).take k = w
  have hlength : w.length = k := by
    rw [← hw, length_take, length_append, length_beBytes, length_frameTail]
    omega
  have hof := frameLengthOf_frame m isMasking hopcode hfin hshort hlen (w := w) (by
    intro hle
    rw [← hw, take_take, Nat.min_eq_left (by omega)]
    exact take_left' (length_beBytes _ _))
  rw [layout, take_succ_cons, take_succ_cons, hw, wsReadFrameLength,
    show wsUpgraded.continuedOpcode = 0 from rfl, hof, hlength]
  by_cases hfield : k < payloadN payload.length
  · rw [if_pos hfield]
    exact ⟨_, rfl, .inl (by dsimp only; omega)⟩
  · rw [if_neg hfield]
    exact ⟨_, rfl, .inr hk⟩

theorem wsReadFrame_layout (env : WsEnv) (ws : Ws) (hneeded : ws.neededLength = 0)
    (hframe : ws.frameLength = (layout isFin opcode isMasking mask payload).length)
    (hfresh : ws.data = cbNew) (hopcode : opcode ∈ leadingOpcodes)
    (htext : textInvalid opcode payload = none) (hlen : payload.length < 2 ^ 31)
    (hgrants : env.machine.grants (max payload.length minLength) = true) (rest : List UInt8) :
    ∃ ws', wsReadFrame env ws (layout isFin opcode isMasking mask payload ++ rest)
        = .ok ws' (2 + payloadN payload.length + (if isMasking then 4 else 0) +
            if isMasking && (List.ofFn mask).any (· ≠ 0) then payload.length else 0) isFin opcode
            (isMasking && (List.ofFn mask).any (· ≠ 0)) ∧
      ws'.data.content = payload := by
  obtain ⟨-, hop, hbit⟩ := firstByte_bits hopcode isFin
  obtain ⟨-, hlen7⟩ := secondByte_bits isMasking (lengthBits_lt payload.length)
  have hne : opcode ≠ opcodeContinuation := by
    intro h
    rw [h] at hopcode
    revert hopcode
    decide
  obtain ⟨data, hdata, hroom, hcontent⟩ := cbNew_takes hlen hgrants
  have hsize := length_layout isFin opcode isMasking mask payload
  have hfirst : (layout isFin opcode isMasking mask payload ++ rest).getD 0 0
      = firstByte isFin opcode := rfl
  have hsecond : (layout isFin opcode isMasking mask payload ++ rest).getD 1 0
      = secondByte isMasking (lengthBits payload.length) := rfl
  have hmask : (((layout isFin opcode isMasking mask payload ++ rest) ++ env.beyond).drop
      (2 + payloadN payload.length)).take (if isMasking then 4 else 0)
        = if isMasking then List.ofFn mask else [] := by
    rw [append_assoc, drop_layout]
    cases isMasking with
    | true =>
      rw [frameTail, if_pos rfl, if_pos rfl, if_pos rfl, append_assoc]
      exact take_left' (length_ofFn)
    | false => rfl
  have hbody : ((layout isFin opcode isMasking mask payload ++ rest).drop
      (2 + payloadN payload.length + if isMasking then 4 else 0)).take payload.length
        = if isMasking then applyMask (List.ofFn mask) payload else payload := by
    rw [← drop_drop, drop_layout]
    cases isMasking with
    | true =>
      rw [frameTail, if_pos rfl, if_pos rfl, if_pos rfl, append_assoc, drop_left' length_ofFn]
      exact take_left' (length_applyMask _ _)
    | false =>
      rw [frameTail]
      exact take_left
  have hplain : (if (if isMasking then List.ofFn mask else []).any (· ≠ 0) then
      applyMask (if isMasking then List.ofFn mask else [])
        (if isMasking then applyMask (List.ofFn mask) payload else payload)
      else if isMasking then applyMask (List.ofFn mask) payload else payload) = payload := by
    cases isMasking with
    | true =>
      simp only [if_true]
      cases hzero : (List.ofFn mask).any (· ≠ 0) with
      | true => rw [if_pos rfl, applyMask_applyMask]
      | false => rw [if_neg Bool.false_ne_true, applyMask_zero hzero]
    | false => rfl
  have hany : (if isMasking then List.ofFn mask else []).any (· ≠ 0)
      = (isMasking && (List.ofFn mask).any (· ≠ 0)) := by
    cases isMasking <;> rfl
  have hwhole : ¬ (ws.neededLength ≠ 0 ∨ ws.frameLength = 0 ∨
      (layout isFin opcode isMasking mask payload ++ rest).length < ws.frameLength) := by
    rw [length_append, hframe]
    omega
  have hinside : ¬ ((layout isFin opcode isMasking mask payload ++ rest).length
      < 2 + payloadN payload.length + (if isMasking then 4 else 0) + payload.length ∨
        data.block.length < data.tail + payload.length) := by
    rw [length_append, hsize]
    omega
  refine ⟨{ ws with data := data.put payload }, ?_, hcontent⟩
  rw [wsReadFrame, if_neg hwhole]
  simp only [hfirst, hsecond, hop, hbit, hlen7, payloadNOf_lengthBits, maskLength_secondByte]
  rw [hframe, hsize, payloadLengthOf_frame env.machine isMasking hlen, if_neg hne, hfresh, hdata,
    hmask, hbody, hplain]
  dsimp only
  rw [if_neg hinside, htext, hany]

end Layout

/-- The frame `bytes`, whatever follows it, is found as one frame of that length, no proper prefix
is, and it is read back as what was sent, the input being used up to its end. -/
structure ReadsBack (env : WsEnv) (a : SendFrame) (payload bytes rest : List UInt8) : Prop where
  found : wsReadFrameLength env.machine.bits wsUpgraded (bytes ++ rest)
    = ({ wsUpgraded with frameLength := bytes.length }, none)
  incomplete : ∀ k < bytes.length, ∃ ws',
    wsReadFrameLength env.machine.bits wsUpgraded (bytes.take k) = (ws', none) ∧
      (ws'.neededLength ≠ 0 ∨ k < ws'.frameLength)
  read : ∃ ws' isMasking, wsReadFrame env { wsUpgraded with frameLength := bytes.length }
      (bytes ++ rest) = .ok ws' bytes.length a.isFin a.opcode isMasking ∧
    ws'.data.content = payload

/-- There is a mask, and it changes something. -/
def SendFrame.Masked (a : SendFrame) : Prop := a.isMasking = true ∧ ∃ i, a.mask i ≠ 0

theorem SendFrame.masked_iff (a : SendFrame) :
    (a.isMasking && (List.ofFn a.mask).any (· ≠ 0)) = true ↔ a.Masked := by
  rw [Bool.and_eq_true, any_eq_true]
  refine and_congr_right fun _ => ⟨?_, ?_⟩
  · rintro ⟨_, hmem, hne⟩
    obtain ⟨i, rfl⟩ := mem_ofFn.mp hmem
    exact ⟨i, of_decide_eq_true hne⟩
  · rintro ⟨i, hne⟩
    exact ⟨_, mem_ofFn.mpr ⟨i, rfl⟩, decide_eq_true hne⟩

/-- **Frame codec.**  A frame is read back exactly if it has no payload or the payload is masked:
`ws_read_frame` does not move behind a payload that it copies as it is. -/
theorem wsReadFrame_wsSendFrame_iff (env env' : WsEnv) (ws : Ws) (a : SendFrame)
    (payload bytes rest : List UInt8) (hidle : ws.continuedOpcode = 0)
    (hopcode : a.opcode ∈ leadingOpcodes) (hpayload : a.payload = some payload)
    (hlen : payload.length < 2 ^ 31)
    (hsent : (wsSendFrame env ws a).calls = ws.calls ++ [.sendData bytes])
    (hgrants : env'.machine.grants (max payload.length minLength) = true) :
    ReadsBack env' a payload bytes rest ↔ payload = [] ∨ a.Masked := by
  obtain ⟨hbytes, herr⟩ := wsSendFrame_sent hidle hpayload hsent
  obtain ⟨hfin, hshort, htext⟩ := sendError_none hidle hpayload herr
  rw [frameBytes_eq _ _ _ _ _ hlen] at hbytes
  obtain ⟨ws', hread, hcontent⟩ := wsReadFrame_layout env' { wsUpgraded with
    frameLength := bytes.length } rfl (congrArg length hbytes) rfl hopcode htext hlen hgrants rest
  have hsize := length_layout a.isFin a.opcode a.isMasking a.mask payload
  rw [← hbytes] at hread hsize
  rw [← a.masked_iff]
  constructor
  · intro h
    obtain ⟨ws1, isMasking, hread', -⟩ := h.read
    rw [hread] at hread'
    injection hread' with _ hconsumed
    by_cases hmasked : (a.isMasking && (List.ofFn a.mask).any (· ≠ 0)) = true
    · exact .inr hmasked
    · rw [if_neg hmasked] at hconsumed
      exact .inl (eq_nil_of_length_eq_zero (by omega))
  · intro h
    refine ⟨?_, fun k hk => ?_, ws',
      a.isMasking && (List.ofFn a.mask).any (· ≠ 0), ?_, hcontent⟩
    · rw [hbytes]
      exact wsReadFrameLength_layout _ hopcode hfin hshort hlen rest
    · rw [hbytes] at hk ⊢
      exact wsReadFrameLength_take _ hopcode hfin hshort hlen hk
    · rw [hread, hsize]
      congr 1
      rcases h with rfl | hmasked
      · rw [length_nil, ite_self]
      · rw [if_pos hmasked]

/-- Memory enough, and callbacks that keep nothing. -/
def quietEnv : WsEnv where
  inGrants _ := true
  machine := .generous
  sends _ := true
  keeps _ := false
  answers _ := []
  beyond := []

/-- The text `Hi`, masked. -/
def maskedHi : SendFrame := ⟨true, opcodeText, true, some [72, 105], fun i => UInt8.ofNat (i + 1)⟩

theorem wsReadFrame_wsSendFrame_iff_maskedHi :
    (wsSendFrame quietEnv wsUpgraded maskedHi).calls
        = [.sendData [0x81, 0x82, 1, 2, 3, 4, 73, 107]] ∧
      ReadsBack quietEnv maskedHi [72, 105] [0x81, 0x82, 1, 2, 3, 4, 73, 107] [] := by
  have hsent : (wsSendFrame quietEnv wsUpgraded maskedHi).calls
      = wsUpgraded.calls ++ [.sendData [0x81, 0x82, 1, 2, 3, 4, 73, 107]] := by decide +kernel
  exact ⟨hsent, (wsReadFrame_wsSendFrame_iff quietEnv quietEnv wsUpgraded maskedHi [72, 105]
    [0x81, 0x82, 1, 2, 3, 4, 73, 107] [] rfl (by decide) rfl (by decide) hsent rfl).mpr
      (.inr ⟨rfl, 0, by decide⟩)⟩

/-- The text `Hi` without a mask: only its header is used up. -/
def plainHi : SendFrame := ⟨true, opcodeText, false, some [72, 105], fun _ => 0⟩

theorem plainHi_not_consumed :
    (wsSendFrame quietEnv wsUpgraded plainHi).calls = [.sendData [0x81, 2, 72, 105]] ∧
      ¬ ReadsBack quietEnv plainHi [72, 105] [0x81, 2, 72, 105] [] := by
  refine ⟨by decide +kernel, fun h => ?_⟩
  obtain ⟨ws', isMasking, hread, -⟩ := h.read
  have hlength : 4 = (layout true opcodeText false (fun _ => 0) [72, 105]).length := rfl
  obtain ⟨ws1, hread', -⟩ := wsReadFrame_layout quietEnv { wsUpgraded with frameLength := 4 } rfl
    hlength rfl (by decide) (by decide) (by decide) rfl []
  have hsame := hread.symm.trans hread'
  injection hsame with _ hconsumed
  exact absurd hconsumed (by decide)

end IDeviceStack.WebkitProxy
