/-
# `Libplist.Bplist.Utf16` — strings of a binary plist

Strings that are not ASCII are kept as UTF-16 in a binary plist and as UTF-8 in
memory.  `plist_utf8_to_utf16` and `plist_utf16_to_utf8` convert between the two
by bit arithmetic; neither checks that what it reads is well formed.  On valid
UTF-8 they are inverse to each other: a character goes to one code unit, or to a
pair of surrogates, and comes back.
-/
import IDeviceStack.Libplist.Data
import Mathlib.Data.Nat.Bitwise

namespace IDeviceStack.Libplist.Bplist

open List

/-- The loop of `plist_utf16_to_utf8`; `lead` is the first half of `w` after a lead surrogate. -/
def utf16Loop : List Nat → Option Nat → List UInt8
  | [], _ => []
  | wc :: us, lead =>
    if 0xD800 ≤ wc ∧ wc ≤ 0xDBFF then
      match lead with
      | none => utf16Loop us (some (0x010000 + (wc &&& 0x3FF) <<< 10))
      | some _ => utf16Loop us none
    else if 0xDC00 ≤ wc ∧ wc ≤ 0xDFFF then
      match lead with
      | none => utf16Loop us none
      | some w₀ =>
        let w := w₀ ||| (wc &&& 0x3FF)
        [UInt8.ofNat (0xF0 + (w >>> 18 &&& 0x7)), UInt8.ofNat (0x80 + (w >>> 12 &&& 0x3F)),
          UInt8.ofNat (0x80 + (w >>> 6 &&& 0x3F)), UInt8.ofNat (0x80 + (w &&& 0x3F))] ++
          utf16Loop us none
    else if 0x800 ≤ wc then
      [UInt8.ofNat (0xE0 + (wc >>> 12 &&& 0xF)), UInt8.ofNat (0x80 + (wc >>> 6 &&& 0x3F)),
        UInt8.ofNat (0x80 + (wc &&& 0x3F))] ++ utf16Loop us lead
    else if 0x80 ≤ wc then
      [UInt8.ofNat (0xC0 + (wc >>> 6 &&& 0x1F)), UInt8.ofNat (0x80 + (wc &&& 0x3F))] ++
        utf16Loop us lead
    else
      UInt8.ofNat (wc &&& 0x7F) :: utf16Loop us lead

/-- `plist_utf16_to_utf8`, on at least one code unit. -/
def utf16ToUtf8 (unistr : List Nat) : List UInt8 := utf16Loop unistr none

/-- The loop of `plist_utf8_to_utf16`, with at most `n` turns to go; `outbuf` holds
`uint16_t`s, and `w` is a `uint32_t`. -/
def utf8Loop : Nat → List UInt8 → List Nat
  | 0, _ => []
  | _ + 1, [] => []
  | n + 1, b :: bs =>
    let c0 := b.toNat
    let c1 := (bs.getD 0 0).toNat
    let c2 := (bs.getD 1 0).toNat
    let c3 := (bs.getD 2 0).toNat
    if c0 ≥ 0xF0 ∧ 3 ≤ bs.length ∧ c1 ≥ 0x80 ∧ c2 ≥ 0x80 ∧ c3 ≥ 0x80 then
      let w := (((((c0 &&& 7) <<< 18) + ((c1 &&& 0x3F) <<< 12) + ((c2 &&& 0x3F) <<< 6) +
        (c3 &&& 0x3F)) &&& 0x1FFFFF) + (2 ^ 32 - 0x010000)) % 2 ^ 32
      (0xD800 + w >>> 10) % 2 ^ 16 :: (0xDC00 + (w &&& 0x3FF)) % 2 ^ 16 :: utf8Loop n (bs.drop 3)
    else if c0 ≥ 0xE0 ∧ 2 ≤ bs.length ∧ c1 ≥ 0x80 ∧ c2 ≥ 0x80 then
      (((c2 &&& 0x3F) + ((c1 &&& 3) <<< 6)) + ((c1 >>> 2 &&& 15) <<< 8) + ((c0 &&& 15) <<< 12)) ::
        utf8Loop n (bs.drop 2)
    else if c0 ≥ 0xC0 ∧ 1 ≤ bs.length ∧ c1 ≥ 0x80 then
      (((c1 &&& 0x3F) + ((c0 &&& 3) <<< 6)) + ((c0 >>> 2 &&& 7) <<< 8)) :: utf8Loop n (bs.drop 1)
    else if c0 < 0x80 then
      c0 :: utf8Loop n bs
    else
      []

/-- `plist_utf8_to_utf16`. -/
def utf8ToUtf16 (unistr : List UInt8) : List Nat := utf8Loop unistr.length unistr

/-! ## Valid strings -/

/-- `s` is valid UTF-8. -/
def ValidUtf8 (s : List UInt8) : Prop := ∃ cs : List Char, s = cs.flatMap String.utf8EncodeChar

/-- The code units of a character. -/
def utf16EncodeChar (c : Char) : List Nat :=
  if c.val.toNat < 0x10000 then [c.val.toNat]
  else [0xD800 + (c.val.toNat - 0x10000) / 1024, 0xDC00 + (c.val.toNat - 0x10000) % 1024]

theorem char_range (c : Char) :
    c.val.toNat < 0xD800 ∨ 0xDFFF < c.val.toNat ∧ c.val.toNat < 0x110000 := c.valid

theorem and_low (x k : Nat) : x &&& (2 ^ k - 1) = x % 2 ^ k := Nat.and_two_pow_sub_one_eq_mod x k

theorem toNat_ofNat_of_lt {x : Nat} (h : x < 256) : (UInt8.ofNat x).toNat = x := by
  rw [UInt8.toNat_ofNat']
  exact Nat.mod_eq_of_lt h

theorem utf8Loop_char (c : Char) (bs : List UInt8) (n : Nat) :
    utf8Loop (n + 1) (String.utf8EncodeChar c ++ bs) = utf16EncodeChar c ++ utf8Loop n bs := by
  have hrange := char_range c
  obtain ⟨v, hv⟩ : ∃ v, c.val.toNat = v := ⟨_, rfl⟩
  have m3 (x : Nat) : x &&& 3 = x % 4 := and_low x 2
  have m7 (x : Nat) : x &&& 7 = x % 8 := and_low x 3
  have m15 (x : Nat) : x &&& 15 = x % 16 := and_low x 4
  have m3F (x : Nat) : x &&& 0x3F = x % 64 := and_low x 6
  have m3FF (x : Nat) : x &&& 0x3FF = x % 1024 := and_low x 10
  have m1F (x : Nat) : x &&& 0x1FFFFF = x % 2097152 := and_low x 21
  simp only [String.utf8EncodeChar, utf16EncodeChar, hv] at hrange ⊢
  by_cases h1 : v ≤ 0x7f
  · rw [if_pos h1, if_pos (by omega)]
    simp [utf8Loop, toNat_ofNat_of_lt (x := v) (by omega), show ¬ 240 ≤ v by omega,
      show ¬ 224 ≤ v by omega, show ¬ 192 ≤ v by omega, show v < 128 by omega]
  rw [if_neg h1]
  by_cases h2 : v ≤ 0x7ff
  · have e0 := toNat_ofNat_of_lt (x := v / 64 % 0x20 + 0xc0) (by omega)
    have e1 := toNat_ofNat_of_lt (x := v % 0x40 + 0x80) (by omega)
    rw [if_pos h2, if_pos (by omega)]
    simp only [utf8Loop, cons_append, nil_append, getD_cons_zero, e0, e1,
      drop_one, tail_cons, m3, m7, m3F, Nat.shiftLeft_eq, Nat.shiftRight_eq_div_pow]
    rw [if_neg (by omega), if_neg (by omega), if_pos ⟨by omega, by simp, by omega⟩]
    congr 1
    omega
  rw [if_neg h2]
  by_cases h3 : v ≤ 0xffff
  · have e0 := toNat_ofNat_of_lt (x := v / 4096 % 0x10 + 0xe0) (by omega)
    have e1 := toNat_ofNat_of_lt (x := v / 64 % 0x40 + 0x80) (by omega)
    have e2 := toNat_ofNat_of_lt (x := v % 0x40 + 0x80) (by omega)
    rw [if_pos h3, if_pos (by omega)]
    simp only [utf8Loop, cons_append, nil_append, getD_cons_zero, getD_cons_succ, e0, e1, e2,
      drop_succ_cons, drop_zero, m3, m15, m3F, Nat.shiftLeft_eq, Nat.shiftRight_eq_div_pow]
    rw [if_neg (by omega), if_pos ⟨by omega, by simp, by omega, by omega⟩]
    congr 1
    omega
  · have e0 := toNat_ofNat_of_lt (x := v / 262144 % 0x08 + 0xf0) (by omega)
    have e1 := toNat_ofNat_of_lt (x := v / 4096 % 0x40 + 0x80) (by omega)
    have e2 := toNat_ofNat_of_lt (x := v / 64 % 0x40 + 0x80) (by omega)
    have e3 := toNat_ofNat_of_lt (x := v % 0x40 + 0x80) (by omega)
    rw [if_neg h3, if_neg (by omega)]
    simp only [utf8Loop, cons_append, nil_append, getD_cons_zero, getD_cons_succ, e0, e1, e2, e3,
      drop_succ_cons, drop_zero, m7, m3F, m3FF, m1F, Nat.shiftLeft_eq, Nat.shiftRight_eq_div_pow]
    rw [if_pos ⟨by omega, by simp, by omega, by omega, by omega⟩]
    have hw : ((v / 262144 % 8 + 240) % 8 * 2 ^ 18 + (v / 4096 % 64 + 128) % 64 * 2 ^ 12 +
        (v / 64 % 64 + 128) % 64 * 2 ^ 6 + (v % 64 + 128) % 64) % 2097152 = v := by
      omega
    have hhi : (0xD800 + (v - 65536) / 2 ^ 10) % 2 ^ 16 = 0xD800 + (v - 65536) / 1024 := by omega
    have hlo : (0xDC00 + (v - 65536) % 1024) % 2 ^ 16 = 0xDC00 + (v - 65536) % 1024 := by omega
    rw [hw, show (v + (2 ^ 32 - 65536)) % 2 ^ 32 = v - 65536 by omega, hhi, hlo]

theorem utf16Loop_char (c : Char) (us : List Nat) :
    utf16Loop (utf16EncodeChar c ++ us) none = String.utf8EncodeChar c ++ utf16Loop us none := by
  have hrange := char_range c
  obtain ⟨v, hv⟩ : ∃ v, c.val.toNat = v := ⟨_, rfl⟩
  have m7 (x : Nat) : x &&& 7 = x % 8 := and_low x 3
  have mF (x : Nat) : x &&& 0xF = x % 16 := and_low x 4
  have m1F (x : Nat) : x &&& 0x1F = x % 32 := and_low x 5
  have m3F (x : Nat) : x &&& 0x3F = x % 64 := and_low x 6
  have m7F (x : Nat) : x &&& 0x7F = x % 128 := and_low x 7
  have m3FF (x : Nat) : x &&& 0x3FF = x % 1024 := and_low x 10
  simp only [String.utf8EncodeChar, utf16EncodeChar, hv] at hrange ⊢
  by_cases h1 : v < 0x10000
  · rw [if_pos h1]
    simp only [cons_append, nil_append, utf16Loop]
    rw [if_neg (by omega), if_neg (by omega)]
    simp only [mF, m1F, m3F, m7F, Nat.shiftRight_eq_div_pow]
    by_cases h2 : v ≤ 0x7f
    · rw [if_neg (by omega), if_neg (by omega), if_pos h2, Nat.mod_eq_of_lt (by omega)]
      rfl
    rw [if_neg h2]
    by_cases h3 : v ≤ 0x7ff
    · rw [if_neg (by omega), if_pos (by omega), if_pos h3, Nat.add_comm 192, Nat.add_comm 128]
      rfl
    · rw [if_pos (by omega), if_neg h3, if_pos (by omega), Nat.add_comm 224, Nat.add_comm 128,
        Nat.add_comm 128]
      rfl
  · rw [if_neg h1, if_neg (by omega), if_neg (by omega), if_neg (by omega)]
    simp only [cons_append, nil_append, utf16Loop]
    rw [if_pos (by omega), if_neg (by omega), if_pos (by omega)]
    simp only [m3FF]
    have hw : 65536 + ((55296 + (v - 65536) / 1024) % 1024) <<< 10 |||
        (56320 + (v - 65536) % 1024) % 1024 = v := by
      have hlow : (56320 + (v - 65536) % 1024) % 1024 < 2 ^ 10 := by omega
      rw [show 65536 + ((55296 + (v - 65536) / 1024) % 1024) <<< 10 =
        (64 + (55296 + (v - 65536) / 1024) % 1024) <<< 10 by
          simp only [Nat.shiftLeft_eq]
          omega, ← Nat.shiftLeft_add_eq_or_of_lt hlow, Nat.shiftLeft_eq]
      omega
    rw [hw]
    simp only [m7, m3F, Nat.shiftRight_eq_div_pow]
    rw [Nat.add_comm 240, Nat.add_comm 128, Nat.add_comm 128, Nat.add_comm 128]

theorem length_utf8EncodeChar_pos (c : Char) : 1 ≤ (String.utf8EncodeChar c).length := by
  rw [String.length_utf8EncodeChar]
  exact c.utf8Size_pos

theorem utf8Loop_encode (cs : List Char) (n : Nat)
    (hn : (cs.flatMap String.utf8EncodeChar).length ≤ n) :
    utf8Loop n (cs.flatMap String.utf8EncodeChar) = cs.flatMap utf16EncodeChar := by
  induction cs generalizing n with
  | nil => cases n <;> rfl
  | cons c cs ih =>
    have hpos := length_utf8EncodeChar_pos c
    rw [flatMap_cons, length_append] at hn
    cases n with
    | zero => omega
    | succ n => rw [flatMap_cons, utf8Loop_char, ih n (by omega), flatMap_cons]

theorem utf16Loop_encode (cs : List Char) :
    utf16Loop (cs.flatMap utf16EncodeChar) none = cs.flatMap String.utf8EncodeChar := by
  induction cs with
  | nil => rfl
  | cons c cs ih => rw [flatMap_cons, utf16Loop_char, ih, flatMap_cons]

/-- **A valid string survives.** -/
theorem utf16ToUtf8_utf8ToUtf16 {s : List UInt8} (hs : ValidUtf8 s) :
    utf16ToUtf8 (utf8ToUtf16 s) = s := by
  obtain ⟨cs, rfl⟩ := hs
  rw [utf8ToUtf16, utf8Loop_encode cs _ (Nat.le_refl _), utf16ToUtf8, utf16Loop_encode]

/-! ## Strings that are not valid -/

theorem utf8Loop_lt (n : Nat) (bs : List UInt8) : ∀ u ∈ utf8Loop n bs, u < 2 ^ 16 := by
  have m3 (x : Nat) : x &&& 3 = x % 4 := and_low x 2
  have m7 (x : Nat) : x &&& 7 = x % 8 := and_low x 3
  have m15 (x : Nat) : x &&& 15 = x % 16 := and_low x 4
  have m3F (x : Nat) : x &&& 0x3F = x % 64 := and_low x 6
  induction n generalizing bs with
  | zero => simp [utf8Loop]
  | succ n ih =>
    cases bs with
    | nil => simp [utf8Loop]
    | cons b bs =>
      have hb := b.toNat_lt
      intro u hu
      simp only [utf8Loop] at hu
      split_ifs at hu with h4 h3 h2 h1
      · rcases mem_cons.mp hu with rfl | hu
        · exact Nat.mod_lt _ (by omega)
        rcases mem_cons.mp hu with rfl | hu
        · exact Nat.mod_lt _ (by omega)
        · exact ih _ u hu
      · rcases mem_cons.mp hu with rfl | hu
        · simp only [m3, m15, m3F, Nat.shiftLeft_eq, Nat.shiftRight_eq_div_pow]
          omega
        · exact ih _ u hu
      · rcases mem_cons.mp hu with rfl | hu
        · simp only [m3, m7, m3F, Nat.shiftLeft_eq, Nat.shiftRight_eq_div_pow]
          omega
        · exact ih _ u hu
      · rcases mem_cons.mp hu with rfl | hu
        · omega
        · exact ih _ u hu
      · cases hu

theorem utf8ToUtf16_lt (s : List UInt8) : ∀ u ∈ utf8ToUtf16 s, u < 2 ^ 16 := utf8Loop_lt _ s

/-- No code unit at all: the string starts with a byte that starts no sequence, or whose sequence
breaks off at once. -/
theorem utf8ToUtf16_eq_nil_iff (b : UInt8) (bs : List UInt8) :
    utf8ToUtf16 (b :: bs) = [] ↔
      0x80 ≤ b.toNat ∧ (b.toNat < 0xC0 ∨ (bs.getD 0 0).toNat < 0x80) := by
  rw [utf8ToUtf16, length_cons]
  simp only [utf8Loop]
  have hlen : 0x80 ≤ (bs.getD 0 0).toNat → 1 ≤ bs.length := by
    intro h
    cases bs with
    | nil => simp at h
    | cons => simp
  split_ifs with h4 h3 h2 h1
  · exact iff_of_false (by simp) (by omega)
  · exact iff_of_false (by simp) (by omega)
  · exact iff_of_false (by simp) (by omega)
  · exact iff_of_false (by simp) (by omega)
  · exact iff_of_true rfl (by omega)

/-- What has been read of a pair of surrogates. -/
def LeadOk (lead : Option Nat) : Prop := ∀ w₀, lead = some w₀ → ∃ k < 1024, w₀ = 0x010000 + k <<< 10

theorem leadOk_none : LeadOk none := fun _ h => by cases h

theorem ValidUtf8.append {s t : List UInt8} (hs : ValidUtf8 s) (ht : ValidUtf8 t) :
    ValidUtf8 (s ++ t) := by
  obtain ⟨cs, rfl⟩ := hs
  obtain ⟨ds, rfl⟩ := ht
  exact ⟨cs ++ ds, flatMap_append.symm⟩

theorem validUtf8_char (c : Char) : ValidUtf8 (String.utf8EncodeChar c) := ⟨[c], by simp⟩

theorem exists_char {v : Nat} (h : v < 0xD800 ∨ 0xDFFF < v ∧ v < 0x110000) :
    ∃ c : Char, c.val.toNat = v := by
  refine ⟨Char.ofNat v, ?_⟩
  have hvalid : v.isValidChar := h
  rw [Char.ofNat, dif_pos hvalid]
  rfl

theorem utf16Loop_lead {wc : Nat} (h : 0xD800 ≤ wc ∧ wc ≤ 0xDBFF) (us : List Nat) :
    utf16Loop (wc :: us) none = utf16Loop us (some (0x010000 + (wc &&& 0x3FF) <<< 10)) := by
  simp only [utf16Loop, if_pos h]

theorem validUtf8_pair {k wc : Nat} (hk : k < 1024) (hwc : 0xDC00 ≤ wc ∧ wc ≤ 0xDFFF) :
    ValidUtf8 (utf16Loop [wc] (some (0x010000 + k <<< 10))) := by
  obtain ⟨c, hc⟩ := exists_char (v := 0x10000 + k * 1024 + (wc - 0xDC00)) (by omega)
  have hunits : utf16EncodeChar c = [0xD800 + k, wc] := by
    have hhi : (0x10000 + k * 1024 + (wc - 0xDC00) - 0x10000) / 1024 = k := by omega
    have hlo : 0xDC00 + (0x10000 + k * 1024 + (wc - 0xDC00) - 0x10000) % 1024 = wc := by omega
    rw [utf16EncodeChar, hc, if_neg (by omega), hhi, hlo]
  have hchar := utf16Loop_char c []
  have m3FF : (0xD800 + k) &&& 0x3FF = k := by
    have hmod : (0xD800 + k) &&& 0x3FF = (0xD800 + k) % 1024 := and_low _ 10
    omega
  rw [hunits, cons_append, utf16Loop_lead (by omega), m3FF, append_nil] at hchar
  rw [hchar, utf16Loop, append_nil]
  exact validUtf8_char c

theorem utf16Loop_valid {us : List Nat} (hus : ∀ u ∈ us, u < 2 ^ 16) {lead : Option Nat}
    (hlead : LeadOk lead) : ValidUtf8 (utf16Loop us lead) := by
  induction us generalizing lead with
  | nil => exact ⟨[], rfl⟩
  | cons wc us ih =>
    have hwc : wc < 2 ^ 16 := hus wc mem_cons_self
    have hrest {lead : Option Nat} (h : LeadOk lead) : ValidUtf8 (utf16Loop us lead) :=
      ih (fun u hu => hus u (mem_cons_of_mem wc hu)) h
    by_cases hlo : 0xD800 ≤ wc ∧ wc ≤ 0xDBFF
    · cases lead with
      | some w0 =>
        simp only [utf16Loop, if_pos hlo]
        exact hrest leadOk_none
      | none =>
        rw [utf16Loop_lead hlo]
        have hmod : wc &&& 0x3FF = wc % 1024 := and_low _ 10
        exact hrest fun w0 hw => ⟨wc &&& 0x3FF, by omega, (Option.some.inj hw).symm⟩
    by_cases hhi : 0xDC00 ≤ wc ∧ wc ≤ 0xDFFF
    · cases lead with
      | none =>
        simp only [utf16Loop, if_neg hlo, if_pos hhi]
        exact hrest leadOk_none
      | some w0 =>
        obtain ⟨k, hk, rfl⟩ := hlead w0 rfl
        have hsplit : utf16Loop (wc :: us) (some (0x010000 + k <<< 10)) =
            utf16Loop [wc] (some (0x010000 + k <<< 10)) ++ utf16Loop us none := by
          simp only [utf16Loop, if_neg hlo, if_pos hhi, append_nil]
        rw [hsplit]
        exact (validUtf8_pair hk hhi).append (hrest leadOk_none)
    · -- a character of its own, whatever has been read before it
      obtain ⟨c, hc⟩ := exists_char (v := wc) (by omega)
      have hunits : utf16EncodeChar c = [wc] := by rw [utf16EncodeChar, hc, if_pos (by omega)]
      have hchar := utf16Loop_char c []
      rw [hunits] at hchar
      have hsplit : utf16Loop (wc :: us) lead = utf16Loop [wc] none ++ utf16Loop us lead := by
        simp only [utf16Loop, if_neg hlo, if_neg hhi]
        split_ifs <;> simp
      rw [hsplit, show [wc] = [wc] ++ [] from rfl, hchar, utf16Loop, append_nil]
      exact (validUtf8_char c).append (hrest hlead)

theorem validUtf8_of_utf16 {s : List UInt8} (h : utf16ToUtf8 (utf8ToUtf16 s) = s) : ValidUtf8 s := by
  rw [← h]
  exact utf16Loop_valid (utf8ToUtf16_lt s) leadOk_none

end IDeviceStack.Libplist.Bplist
