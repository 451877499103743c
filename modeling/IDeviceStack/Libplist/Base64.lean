/-
# `Libplist.Base64` — `base64.c`

`base64encode` and `base64decode`.  The decoder looks at digits and padding only:
blanks and all other characters are passed over, and a `NUL` ends the text.  What was
encoded in lines comes back as one (`decodeLoop_encode`).
-/
import IDeviceStack.Libplist.Data
import Mathlib.Tactic.IntervalCases

namespace IDeviceStack.Libplist

open List

def base64Str (v : Nat) : UInt8 :=
  if v < 26 then UInt8.ofNat (65 + v)
  else if v < 52 then UInt8.ofNat (97 + (v - 26))
  else if v < 62 then UInt8.ofNat (48 + (v - 52))
  else if v = 62 then 43 else 47

def base64Pad : UInt8 := 61

/-- A character of the text: a value, the padding (`-2` in `base64_table`) or nothing (`-1`). -/
inductive Digit where
  | value (v : Nat)
  | pad
  | other
  deriving DecidableEq

def base64Table (c : UInt8) : Digit :=
  let n := c.toNat
  if 65 ≤ n ∧ n ≤ 90 then .value (n - 65)
  else if 97 ≤ n ∧ n ≤ 122 then .value (n - 97 + 26)
  else if 48 ≤ n ∧ n ≤ 57 then .value (n - 48 + 52)
  else if n = 43 then .value 62
  else if n = 47 then .value 63
  else if n = 61 then .pad
  else .other

/-- One turn of `base64encode`; bytes behind the end count as 0 and are written as padding. -/
def encodeGroup (a : UInt8) (b c : Option UInt8) : List UInt8 :=
  let i0 := a.toNat
  let i1 := (b.getD 0).toNat
  let i2 := (c.getD 0).toNat
  [base64Str (i0 >>> 2), base64Str ((i0 % 4) <<< 4 + i1 >>> 4),
    if b.isSome then base64Str ((i1 % 16) <<< 2 + i2 >>> 6) else base64Pad,
    if c.isSome then base64Str (i2 % 64) else base64Pad]

def base64encode : List UInt8 → List UInt8
  | [] => []
  | [a] => encodeGroup a none none
  | [a, b] => encodeGroup a (some b) none
  | a :: b :: c :: rest => encodeGroup a (some b) (some c) ++ base64encode rest

/-- A byte from two digits, if both have a value. -/
def outByte (f : Nat → Nat → Nat) : Digit → Digit → List UInt8
  | .value a, .value b => [UInt8.ofNat (f a b % 256)]
  | _, _ => []

/-- The bytes of four digits. -/
def decodeGroup (w1 w2 w3 w4 : Digit) : List UInt8 :=
  outByte (fun a b => a <<< 2 + b >>> 4) w1 w2 ++ outByte (fun b c => b <<< 4 + c >>> 2) w2 w3 ++
    outByte (fun c d => c <<< 6 + d) w3 w4

/-- The blanks of `base64decode`. -/
def isBase64Blank (c : UInt8) : Bool := c = 32 ∨ c = 9 ∨ c = 10 ∨ c = 13

/-- The loop of `base64decode`, with `tmpval` and the bytes that are out already. -/
def decodeLoop : List UInt8 → List Digit → List UInt8 → List UInt8
  | [], _, out => out
  | c :: s, tmpval, out =>
    if isBase64Blank c then decodeLoop s tmpval out
    else if c = 0 then out
    else
      match base64Table c with
      | .other => decodeLoop s tmpval out
      | wv =>
        match tmpval with
        | [w1, w2, w3] => decodeLoop s [] (out ++ decodeGroup w1 w2 w3 wv)
        | _ => decodeLoop s (tmpval ++ [wv]) out

/-- `base64decode`, on a text that is not empty. -/
def base64decode (s : List UInt8) : List UInt8 := decodeLoop s [] []

theorem decodeLoop_length_le (s : List UInt8) (tmpval : List Digit) (out : List UInt8) :
    (decodeLoop s tmpval out).length ≤ out.length + tmpval.length + s.length := by
  have hout (f : Nat → Nat → Nat) (a b : Digit) : (outByte f a b).length ≤ 1 := by
    cases a <;> cases b <;> simp [outByte]
  induction s generalizing tmpval out with
  | nil =>
    rw [decodeLoop]
    omega
  | cons c s ih =>
    rw [decodeLoop, length_cons]
    split
    · have := ih tmpval out
      omega
    · split
      · omega
      · split
        · have := ih tmpval out
          omega
        · split
          · rename_i w1 w2 w3
            refine Nat.le_trans (ih _ _) ?_
            have h1 := hout (fun a b => a <<< 2 + b >>> 4) w1 w2
            have h2 := hout (fun b c => b <<< 4 + c >>> 2) w2 w3
            have h3 := hout (fun c d => c <<< 6 + d) w3 (base64Table c)
            simp only [decodeGroup, length_append, length_cons, length_nil]
            omega
          · refine Nat.le_trans (ih _ _) ?_
            simp only [length_append, length_cons, length_nil]
            omega

theorem base64decode_length_le (s : List UInt8) : (base64decode s).length ≤ s.length := by
  have h := decodeLoop_length_le s [] []
  simp only [length_nil] at h
  rw [base64decode]
  omega

/-! ## Round trip -/

theorem base64Table_base64Str : ∀ v < 64, base64Table (base64Str v) = .value v := by decide

theorem base64Str_plain : ∀ v < 64, isBase64Blank (base64Str v) = false ∧ base64Str v ≠ 0 := by
  decide

theorem decodeLoop_blank {w : List UInt8} (hw : ∀ c ∈ w, isBase64Blank c) (s : List UInt8)
    (tmpval : List Digit) (out : List UInt8) :
    decodeLoop (w ++ s) tmpval out = decodeLoop s tmpval out := by
  induction w with
  | nil => rfl
  | cons c w ih =>
    rw [cons_append, decodeLoop, if_pos (hw c mem_cons_self),
      ih fun x hx => hw x (mem_cons_of_mem c hx)]

theorem decodeLoop_four {c1 c2 c3 c4 : UInt8} {w1 w2 w3 w4 : Digit}
    (h1 : base64Table c1 = w1) (h2 : base64Table c2 = w2) (h3 : base64Table c3 = w3)
    (h4 : base64Table c4 = w4) (hw : ∀ w ∈ [w1, w2, w3, w4], w ≠ .other)
    (hc : ∀ c ∈ [c1, c2, c3, c4], isBase64Blank c = false ∧ c ≠ 0) (s out : List UInt8) :
    decodeLoop (c1 :: c2 :: c3 :: c4 :: s) [] out =
      decodeLoop s [] (out ++ decodeGroup w1 w2 w3 w4) := by
  simp only [mem_cons, not_mem_nil, or_false, forall_eq_or_imp, forall_eq] at hw hc
  obtain ⟨n1, n2, n3, n4⟩ := hw
  obtain ⟨⟨b1, z1⟩, ⟨b2, z2⟩, ⟨b3, z3⟩, b4, z4⟩ := hc
  simp [decodeLoop, b1, b2, b3, b4, z1, z2, z3, z4, h1, h2, h3, h4]

theorem decodeLoop_encodeGroup (a : UInt8) (b c : Option UInt8) (h : b = none → c = none)
    (s out : List UInt8) :
    decodeLoop (encodeGroup a b c ++ s) [] out =
      decodeLoop s [] (out ++ (a :: (b.toList ++ c.toList))) := by
  have hpad : base64Table base64Pad = .pad ∧ isBase64Blank base64Pad = false ∧ base64Pad ≠ 0 := by
    decide
  have byte (x : UInt8) (n : Nat) (hn : n % 256 = x.toNat) : UInt8.ofNat (n % 256) = x := by
    rw [hn, UInt8.ofNat_toNat]
  have ha := a.toNat_lt
  have hb := (b.getD 0).toNat_lt
  have hc := (c.getD 0).toNat_lt
  -- the four digits
  obtain ⟨v1, hv1⟩ : ∃ v, a.toNat >>> 2 = v := ⟨_, rfl⟩
  obtain ⟨v2, hv2⟩ : ∃ v, (a.toNat % 4) <<< 4 + (b.getD 0).toNat >>> 4 = v := ⟨_, rfl⟩
  obtain ⟨v3, hv3⟩ : ∃ v, ((b.getD 0).toNat % 16) <<< 2 + (c.getD 0).toNat >>> 6 = v := ⟨_, rfl⟩
  obtain ⟨v4, hv4⟩ : ∃ v, (c.getD 0).toNat % 64 = v := ⟨_, rfl⟩
  simp only [encodeGroup, hv1, hv2, hv3, hv4, cons_append, nil_append]
  rw [Nat.shiftRight_eq_div_pow] at hv1
  rw [Nat.shiftLeft_eq, Nat.shiftRight_eq_div_pow] at hv2 hv3
  have p1 := base64Str_plain v1 (by omega)
  have p2 := base64Str_plain v2 (by omega)
  have p3 := base64Str_plain v3 (by omega)
  have p4 := base64Str_plain v4 (by omega)
  have t1 := base64Table_base64Str v1 (by omega)
  have t2 := base64Table_base64Str v2 (by omega)
  have t3 := base64Table_base64Str v3 (by omega)
  have t4 := base64Table_base64Str v4 (by omega)
  have e1 : UInt8.ofNat ((v1 <<< 2 + v2 >>> 4) % 256) = a := by
    apply byte
    rw [Nat.shiftLeft_eq, Nat.shiftRight_eq_div_pow]
    omega
  have e2 : UInt8.ofNat ((v2 <<< 4 + v3 >>> 2) % 256) = b.getD 0 := by
    apply byte
    rw [Nat.shiftLeft_eq, Nat.shiftRight_eq_div_pow]
    omega
  have e3 : UInt8.ofNat ((v3 <<< 6 + v4) % 256) = c.getD 0 := by
    apply byte
    rw [Nat.shiftLeft_eq]
    omega
  cases b with
  | none =>
    obtain rfl := h rfl
    simp only [Option.isSome_none, Bool.false_eq_true, if_false]
    rw [decodeLoop_four t1 t2 hpad.1 hpad.1 (by simp) (by simp [p1, p2, hpad])]
    simp [decodeGroup, outByte, e1]
  | some b =>
    cases c with
    | none =>
      simp only [Option.isSome_some, Option.isSome_none, Bool.false_eq_true, if_true, if_false]
      rw [decodeLoop_four t1 t2 t3 hpad.1 (by simp) (by simp [p1, p2, p3, hpad])]
      simp only [Option.getD_some] at e2
      simp [decodeGroup, outByte, e1, e2]
    | some c =>
      simp only [Option.isSome_some, if_true]
      rw [decodeLoop_four t1 t2 t3 t4 (by simp) (by simp [p1, p2, p3, p4])]
      simp only [Option.getD_some] at e2 e3
      simp [decodeGroup, outByte, e1, e2, e3]

/-- **Encoded bytes are decoded.** -/
theorem decodeLoop_encode (buf s out : List UInt8) :
    decodeLoop (base64encode buf ++ s) [] out = decodeLoop s [] (out ++ buf) := by
  induction buf using base64encode.induct generalizing out with
  | case1 => simp [base64encode]
  | case2 a => rw [base64encode, decodeLoop_encodeGroup a none none (by simp)]; rfl
  | case3 a b => rw [base64encode, decodeLoop_encodeGroup a (some b) none (by simp)]; rfl
  | case4 a b c rest ih =>
    rw [base64encode, append_assoc, decodeLoop_encodeGroup a (some b) (some c) (by simp), ih]
    simp

end IDeviceStack.Libplist
