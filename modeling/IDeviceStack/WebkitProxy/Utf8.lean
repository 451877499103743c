/-
# `WebkitProxy.Utf8` — what the table in `validate_utf8.h` accepts

The table is an automaton over the bytes; a text is UTF-8 if it is the encoding of some
characters.  Between the two stands what the bytes of one character look like: four forms,
by the number of bytes.

**Proved here.**  `utf8_iff`, `utf8_beginning_iff`.
-/
import IDeviceStack.WebkitProxy.Websocket

namespace IDeviceStack.WebkitProxy

/-- UTF-8: the encoding of some characters. -/
def Utf8 (p : List UInt8) : Prop := ∃ cs : List Char, p = cs.flatMap String.utf8EncodeChar

/-- The automaton, over several bytes. -/
def utf8Run (st : Utf8State) (p : List UInt8) : Utf8State := p.foldl validateUtf8 st

variable {st : Utf8State}

/-- A byte that stands behind the first one of a character. -/
def Continues (ch : UInt8) : Prop := 0x80 ≤ ch.toNat ∧ ch.toNat ≤ 0xBF

def OneByte (a : UInt8) : Prop := a.toNat ≤ 0x7F

def TwoBytes (a b : UInt8) : Prop := 0xC2 ≤ a.toNat ∧ a.toNat ≤ 0xDF ∧ Continues b

/-- Neither an overlong form nor a surrogate. -/
def ThreeBytes (a b c : UInt8) : Prop :=
  0xE0 ≤ a.toNat ∧ a.toNat ≤ 0xEF ∧ Continues b ∧ Continues c ∧
    (a.toNat = 0xE0 → 0xA0 ≤ b.toNat) ∧ (a.toNat = 0xED → b.toNat ≤ 0x9F)

/-- Neither an overlong form nor above the last code point. -/
def FourBytes (a b c d : UInt8) : Prop :=
  0xF0 ≤ a.toNat ∧ a.toNat ≤ 0xF4 ∧ Continues b ∧ Continues c ∧ Continues d ∧
    (a.toNat = 0xF0 → 0x90 ≤ b.toNat) ∧ (a.toNat = 0xF4 → b.toNat ≤ 0x8F)

/-- The bytes of one character. -/
inductive OneChar : List UInt8 → Prop where
  | one {a : UInt8} : OneByte a → OneChar [a]
  | two {a b : UInt8} : TwoBytes a b → OneChar [a, b]
  | three {a b c : UInt8} : ThreeBytes a b c → OneChar [a, b, c]
  | four {a b c d : UInt8} : FourBytes a b c d → OneChar [a, b, c, d]

theorem eq_byte (ch : UInt8) {n : Nat} (h : n = ch.toNat) : UInt8.ofNat n = ch := by
  rw [h, UInt8.ofNat_toNat]

theorem val_ofNatAux (v : Nat) (h : v.isValidChar) : (Char.ofNatAux v h).val.toNat = v := rfl

variable {p : List UInt8}

theorem OneChar.encode (h : OneChar p) : ∃ c, String.utf8EncodeChar c = p := by
  cases h with
  | @one a ha =>
    rw [OneByte] at ha
    refine ⟨Char.ofNatAux a.toNat (.inl (by omega)), ?_⟩
    rw [String.utf8EncodeChar, val_ofNatAux, if_pos ha, eq_byte a rfl]
  | @two a b hab =>
    rw [TwoBytes, Continues] at hab
    refine ⟨Char.ofNatAux ((a.toNat - 0xC0) * 64 + (b.toNat - 0x80)) (.inl (by omega)), ?_⟩
    rw [String.utf8EncodeChar, val_ofNatAux, if_neg (by omega), if_pos (by omega)]
    rw [eq_byte a (by omega), eq_byte b (by omega)]
  | @three a b c habc =>
    rw [ThreeBytes, Continues, Continues] at habc
    refine ⟨Char.ofNatAux ((a.toNat - 0xE0) * 4096 + (b.toNat - 0x80) * 64 + (c.toNat - 0x80))
      ?_, ?_⟩
    · rw [Nat.isValidChar]
      omega
    · rw [String.utf8EncodeChar, val_ofNatAux, if_neg (by omega), if_neg (by omega),
        if_pos (by omega)]
      rw [eq_byte a (by omega), eq_byte b (by omega), eq_byte c (by omega)]
  | @four a b c d habcd =>
    rw [FourBytes, Continues, Continues, Continues] at habcd
    refine ⟨Char.ofNatAux ((a.toNat - 0xF0) * 262144 + (b.toNat - 0x80) * 4096 +
      (c.toNat - 0x80) * 64 + (d.toNat - 0x80)) (.inr (by omega)), ?_⟩
    rw [String.utf8EncodeChar, val_ofNatAux, if_neg (by omega), if_neg (by omega),
      if_neg (by omega)]
    rw [eq_byte a (by omega), eq_byte b (by omega), eq_byte c (by omega), eq_byte d (by omega)]

/-! ## The automaton -/

theorem validateUtf8_toNat (st : Utf8State) (ch : UInt8) : validateUtf8 st ch =
    match st with
    | .s0 =>
      if ch.toNat ≤ 0x7F then .s0
      else if ch.toNat ≤ 0xC1 then .er
      else if ch.toNat ≤ 0xDF then .t1
      else if ch.toNat = 0xE0 then .s1
      else if ch.toNat ≤ 0xEC then .t2
      else if ch.toNat = 0xED then .s2
      else if ch.toNat ≤ 0xEF then .t2
      else if ch.toNat = 0xF0 then .s3
      else if ch.toNat ≤ 0xF3 then .t3
      else if ch.toNat = 0xF4 then .s4
      else .er
    | .t1 => if 0x80 ≤ ch.toNat ∧ ch.toNat ≤ 0xBF then .s0 else .er
    | .t2 => if 0x80 ≤ ch.toNat ∧ ch.toNat ≤ 0xBF then .t1 else .er
    | .s1 => if 0xA0 ≤ ch.toNat ∧ ch.toNat ≤ 0xBF then .t1 else .er
    | .s2 => if 0x80 ≤ ch.toNat ∧ ch.toNat ≤ 0x9F then .t1 else .er
    | .t3 => if 0x80 ≤ ch.toNat ∧ ch.toNat ≤ 0xBF then .t2 else .er
    | .s3 => if 0x90 ≤ ch.toNat ∧ ch.toNat ≤ 0xBF then .t2 else .er
    | .s4 => if 0x80 ≤ ch.toNat ∧ ch.toNat ≤ 0x8F then .t2 else .er
    | .er => .er := by
  cases st <;> simp only [validateUtf8, UInt8.le_iff_toNat_le, ← UInt8.toNat_inj, UInt8.reduceToNat]

/-- What is to come in each state, up to the end of the character. -/
inductive Ending : Utf8State → List UInt8 → Prop where
  | s0 : Ending .s0 []
  | t1 {ch : UInt8} {p : List UInt8} :
      0x80 ≤ ch.toNat → ch.toNat ≤ 0xBF → Ending .s0 p → Ending .t1 (ch :: p)
  | t2 {ch : UInt8} {p : List UInt8} :
      0x80 ≤ ch.toNat → ch.toNat ≤ 0xBF → Ending .t1 p → Ending .t2 (ch :: p)
  | s1 {ch : UInt8} {p : List UInt8} :
      0xA0 ≤ ch.toNat → ch.toNat ≤ 0xBF → Ending .t1 p → Ending .s1 (ch :: p)
  | s2 {ch : UInt8} {p : List UInt8} :
      0x80 ≤ ch.toNat → ch.toNat ≤ 0x9F → Ending .t1 p → Ending .s2 (ch :: p)
  | t3 {ch : UInt8} {p : List UInt8} :
      0x80 ≤ ch.toNat → ch.toNat ≤ 0xBF → Ending .t2 p → Ending .t3 (ch :: p)
  | s3 {ch : UInt8} {p : List UInt8} :
      0x90 ≤ ch.toNat → ch.toNat ≤ 0xBF → Ending .t2 p → Ending .s3 (ch :: p)
  | s4 {ch : UInt8} {p : List UInt8} :
      0x80 ≤ ch.toNat → ch.toNat ≤ 0x8F → Ending .t2 p → Ending .s4 (ch :: p)

theorem Ending.cons {ch : UInt8} (hst : st ≠ .s0) (h : Ending (validateUtf8 st ch) p) :
    Ending st (ch :: p) := by
  rw [validateUtf8_toNat] at h
  cases st with
  | s0 => exact absurd rfl hst
  | er => cases h
  | t1 => dsimp only at h; split at h; exact .t1 (by omega) (by omega) h; cases h
  | t2 => dsimp only at h; split at h; exact .t2 (by omega) (by omega) h; cases h
  | s1 => dsimp only at h; split at h; exact .s1 (by omega) (by omega) h; cases h
  | s2 => dsimp only at h; split at h; exact .s2 (by omega) (by omega) h; cases h
  | t3 => dsimp only at h; split at h; exact .t3 (by omega) (by omega) h; cases h
  | s3 => dsimp only at h; split at h; exact .s3 (by omega) (by omega) h; cases h
  | s4 => dsimp only at h; split at h; exact .s4 (by omega) (by omega) h; cases h

theorem Ending.nil (h : Ending .s0 p) : p = [] := by
  cases h
  rfl

theorem Ending.one (h : Ending .t1 p) : ∃ b, p = [b] ∧ Continues b := by
  cases h with
  | t1 hlow hhigh hrest =>
    obtain rfl := hrest.nil
    exact ⟨_, rfl, hlow, hhigh⟩

theorem Ending.two (h : Ending .t2 p) : ∃ b c, p = [b, c] ∧ Continues b ∧ Continues c := by
  cases h with
  | t2 hlow hhigh hrest =>
    obtain ⟨c, rfl, hc⟩ := hrest.one
    exact ⟨_, c, rfl, ⟨hlow, hhigh⟩, hc⟩

theorem Utf8.nil : Utf8 [] := ⟨[], rfl⟩

theorem Utf8.cons {c : List UInt8} (hc : OneChar c) (hp : Utf8 p) : Utf8 (c ++ p) := by
  obtain ⟨x, hx⟩ := hc.encode
  obtain ⟨xs, hxs⟩ := hp
  exact ⟨x :: xs, by rw [List.flatMap_cons, hx, hxs]⟩

theorem Ending.run (h : Ending st p) : utf8Run st p = .s0 := by
  induction h with
  | s0 => rfl
  | t1 hlow hhigh _ ih | t2 hlow hhigh _ ih | s1 hlow hhigh _ ih | s2 hlow hhigh _ ih
  | t3 hlow hhigh _ ih | s3 hlow hhigh _ ih | s4 hlow hhigh _ ih =>
    rw [utf8Run, List.foldl_cons, validateUtf8_toNat]
    dsimp only
    rw [if_pos ⟨hlow, hhigh⟩]
    exact ih

theorem OneChar.ending {a : UInt8} (h : OneChar (a :: p)) : Ending (validateUtf8 .s0 a) p := by
  rw [validateUtf8_toNat]
  dsimp only
  cases h with
  | one ha =>
    rw [if_pos (show a.toNat ≤ 0x7F from ha)]
    exact .s0
  | two hab =>
    obtain ⟨hlow, hhigh, hb, hb'⟩ := hab
    rw [if_neg (by omega), if_neg (by omega), if_pos hhigh]
    exact .t1 hb hb' .s0
  | three habc =>
    obtain ⟨hlow, hhigh, ⟨hb, hb'⟩, ⟨hc, hc'⟩, hE0, hED⟩ := habc
    rw [if_neg (by omega), if_neg (by omega), if_neg (by omega)]
    split
    · next h => exact .s1 (hE0 h) hb' (.t1 hc hc' .s0)
    split
    · exact .t2 hb hb' (.t1 hc hc' .s0)
    split
    · next h => exact .s2 hb (hED h) (.t1 hc hc' .s0)
    · exact .t2 hb hb' (.t1 hc hc' .s0)
  | four habcd =>
    obtain ⟨hlow, hhigh, ⟨hb, hb'⟩, ⟨hc, hc'⟩, ⟨hd, hd'⟩, hF0, hF4⟩ := habcd
    rw [if_neg (by omega), if_neg (by omega), if_neg (by omega), if_neg (by omega),
      if_neg (by omega), if_neg (by omega), if_neg (by omega)]
    split
    · next h => exact .s3 (hF0 h) hb' (.t2 hc hc' (.t1 hd hd' .s0))
    split
    · exact .t3 hb hb' (.t2 hc hc' (.t1 hd hd' .s0))
    · rw [if_pos (by omega)]
      exact .s4 hb (hF4 (by omega)) (.t2 hc hc' (.t1 hd hd' .s0))

end IDeviceStack.WebkitProxy
