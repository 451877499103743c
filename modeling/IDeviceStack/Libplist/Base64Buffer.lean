/-
# `Libplist.Base64Buffer` — the buffers and the lines of `base64.c`

`base64decode` with the buffer that it allocates and the `int` that counts the bytes in it.

* A text is the bytes in front of a `NUL` that is there; a size of 0 asks for `strlen`.
* A byte that is written behind the end of `outbuf` is a fault, and so is a count that an `int`
  does not hold.

**Proved here.**  `base64_iff`.
-/
import IDeviceStack.Libplist.Xplist.Reread

namespace IDeviceStack.Libplist

open List

/-! ## The decoder and its buffer -/

/-- What can go wrong with a byte that is written. -/
inductive WriteFault where
  | outOfBounds
  | intOverflow
  deriving DecidableEq, Repr

/-- `outbuf[p++] = b`, where `out` is `outbuf` up to `p`. -/
def writeByte (size : Nat) (out : List UInt8) (b : UInt8) : Except WriteFault (List UInt8) :=
  if size ≤ out.length then .error .outOfBounds
  else if 2 ^ 31 ≤ out.length + 1 then .error .intOverflow
  else .ok (out ++ [b])

/-- The loop of `base64decode` over a text, with `tmpval` and the bytes that are written already. -/
def decodeLoopInto (size : Nat) : List UInt8 → List Digit → List UInt8 →
    Except WriteFault (List UInt8)
  | [], _, out => .ok out
  | c :: s, tmpval, out =>
    if isBase64Blank c then decodeLoopInto size s tmpval out
    else if c = 0 then .ok out
    else
      match base64Table c with
      | .other => decodeLoopInto size s tmpval out
      | wv =>
        match tmpval with
        | [w1, w2, w3] => do
            let out ← (decodeGroup w1 w2 w3 wv).foldlM (writeByte size) out
            decodeLoopInto size s [] out
        | _ => decodeLoopInto size s (tmpval ++ [wv]) out

/-- The bytes that are decoded. -/
def base64Text (buf : List UInt8) (size : Nat) : List UInt8 :=
  if size > 0 then buf.take size else buf.takeWhile (· != 0)

/-- `base64decode`, with `*size` before and after; `none` for a text that is empty. -/
def base64decodeInto (buf : List UInt8) (size : Nat) :
    Except WriteFault (Option (List UInt8 × Nat)) :=
  let text := base64Text buf size
  if text.length = 0 then .ok none
  else do
    let bufsize := text.length / 4 * 3 + 3
    let out ← decodeLoopInto bufsize text [] []
    -- `outbuf[p] = 0`
    if bufsize ≤ out.length then .error .outOfBounds else .ok (some (out, out.length))

/-! ## The digits of a text -/

/-- The characters that count, up to the first `NUL`. -/
def digitsOf (s : List UInt8) : List Digit :=
  ((s.takeWhile (· != 0)).map base64Table).filter (· != .other)

/-- The bytes that digits stand for, four at a time. -/
def decodeDigits : List Digit → List UInt8
  | w1 :: w2 :: w3 :: w4 :: rest => decodeGroup w1 w2 w3 w4 ++ decodeDigits rest
  | _ => []

/-- The number of the bytes that two digits make. -/
def pairCount : Digit → Digit → Nat
  | .value _, .value _ => 1
  | _, _ => 0

/-- The number of the bytes that digits stand for. -/
def byteCount : List Digit → Nat
  | w1 :: w2 :: w3 :: w4 :: rest =>
    pairCount w1 w2 + pairCount w2 w3 + pairCount w3 w4 + byteCount rest
  | _ => 0

theorem length_outByte (f : Nat → Nat → Nat) (a b : Digit) :
    (outByte f a b).length = pairCount a b := by
  cases a <;> cases b <;> rfl

theorem length_decodeDigits (ws : List Digit) : (decodeDigits ws).length = byteCount ws := by
  induction ws using decodeDigits.induct with
  | case1 w1 w2 w3 w4 rest ih =>
    simp only [decodeDigits, byteCount, decodeGroup, length_append, length_outByte, ih]
  | case2 ws h =>
    rw [decodeDigits, byteCount]
    · rfl
    · exact h
    · exact h

theorem four_mul_byteCount_le (ws : List Digit) : 4 * byteCount ws ≤ 3 * ws.length := by
  have hpair (a b : Digit) : pairCount a b ≤ 1 := by
    cases a <;> cases b <;> simp [pairCount]
  induction ws using byteCount.induct with
  | case1 w1 w2 w3 w4 rest ih =>
    have h1 := hpair w1 w2
    have h2 := hpair w2 w3
    have h3 := hpair w3 w4
    simp only [byteCount, length_cons]
    omega
  | case2 ws h =>
    rw [byteCount]
    · omega
    · exact h

theorem length_digitsOf_le (s : List UInt8) : (digitsOf s).length ≤ s.length :=
  calc (digitsOf s).length ≤ ((s.takeWhile (· != 0)).map base64Table).length :=
        length_filter_le _ _
    _ = (s.takeWhile (· != 0)).length := length_map _
    _ ≤ s.length := (takeWhile_sublist _).length_le


theorem base64Table_blank {c : UInt8} (h : isBase64Blank c) : base64Table c = .other := by
  rw [isBase64Blank, decide_eq_true_eq] at h
  rcases h with rfl | rfl | rfl | rfl <;> decide

theorem digitsOf_blank {c : UInt8} (h : isBase64Blank c) (s : List UInt8) :
    digitsOf (c :: s) = digitsOf s := by
  have hc : c ≠ 0 := by
    rintro rfl
    exact absurd h (by decide)
  rw [digitsOf, takeWhile_cons_of_pos (by simpa using hc), map_cons, base64Table_blank h]
  rfl

theorem digitsOf_nul (s : List UInt8) : digitsOf (0 :: s) = [] := rfl

theorem digitsOf_other {c : UInt8} (hc : c ≠ 0) (h : base64Table c = .other) (s : List UInt8) :
    digitsOf (c :: s) = digitsOf s := by
  rw [digitsOf, takeWhile_cons_of_pos (by simpa using hc), map_cons, h]
  rfl

theorem digitsOf_digit {c : UInt8} (hc : c ≠ 0) (h : base64Table c ≠ .other) (s : List UInt8) :
    digitsOf (c :: s) = base64Table c :: digitsOf s := by
  rw [digitsOf, takeWhile_cons_of_pos (by simpa using hc), map_cons,
    filter_cons_of_pos (by simpa using h)]
  rfl

theorem decodeLoop_eq (s : List UInt8) (tmpval : List Digit) (out : List UInt8)
    (h : tmpval.length < 4) :
    decodeLoop s tmpval out = out ++ decodeDigits (tmpval ++ digitsOf s) := by
  have hshort : ∀ tmpval : List Digit, tmpval.length < 4 → decodeDigits tmpval = [] := by
    intro tmpval h
    obtain _ | ⟨w1, _ | ⟨w2, _ | ⟨w3, _ | ⟨w4, rest⟩⟩⟩⟩ := tmpval
    · rfl
    · rfl
    · rfl
    · rfl
    · simp only [length_cons] at h
      omega
  induction s generalizing tmpval out with
  | nil =>
    rw [decodeLoop, digitsOf, takeWhile_nil, map_nil, filter_nil, append_nil,
      hshort tmpval h, append_nil]
  | cons c s ih =>
    rw [decodeLoop]
    by_cases hblank : isBase64Blank c
    · rw [if_pos hblank, ih tmpval out h, digitsOf_blank hblank]
    rw [if_neg hblank]
    by_cases hc : c = 0
    · subst hc
      rw [if_pos rfl, digitsOf_nul, append_nil, hshort tmpval h, append_nil]
    rw [if_neg hc]
    by_cases hother : base64Table c = .other
    · rw [digitsOf_other hc hother, hother]
      exact ih tmpval out h
    · rw [digitsOf_digit hc hother]
      generalize base64Table c = wv at hother
      by_cases hthree : tmpval.length = 3
      · obtain ⟨w1, w2, w3, rfl⟩ := length_eq_three.mp hthree
        have hgroup : decodeLoop s [] (out ++ decodeGroup w1 w2 w3 wv) =
            out ++ decodeDigits ([w1, w2, w3] ++ wv :: digitsOf s) := by
          rw [ih [] _ (by decide)]
          simp only [decodeDigits, cons_append, nil_append, append_assoc]
        cases wv with
        | other => exact absurd rfl hother
        | value v => exact hgroup
        | pad => exact hgroup
      · obtain _ | ⟨w1, _ | ⟨w2, _ | ⟨w3, rest⟩⟩⟩ := tmpval
          <;> try (simp only [length_cons] at h hthree; omega)
        all_goals
          cases wv with
          | other => exact absurd rfl hother
          | value v => exact (ih _ _ (by simp)).trans (by simp)
          | pad => exact (ih _ _ (by simp)).trans (by simp)

theorem base64decode_eq (s : List UInt8) : base64decode s = decodeDigits (digitsOf s) := by
  rw [base64decode, decodeLoop_eq s [] [] (by decide), nil_append, nil_append]

theorem length_le_decodeLoop (s : List UInt8) {tmpval : List Digit} (out : List UInt8)
    (h : tmpval.length < 4) : out.length ≤ (decodeLoop s tmpval out).length := by
  rw [decodeLoop_eq s tmpval out h, length_append]
  omega

/-! ## The decoder stays inside -/

section Inside

variable {size : Nat}

theorem foldlM_writeByte (bs out : List UInt8) (hroom : out.length + bs.length ≤ size)
    (hout : out.length < 2 ^ 31) : bs.foldlM (writeByte size) out =
      if (out ++ bs).length < 2 ^ 31 then .ok (out ++ bs) else .error .intOverflow := by
  induction bs generalizing out with
  | nil => rw [append_nil, if_pos hout]; rfl
  | cons b bs ih =>
    rw [length_cons] at hroom
    rw [foldlM_cons, writeByte, if_neg (by omega)]
    by_cases hlast : 2 ^ 31 ≤ out.length + 1
    · rw [if_pos hlast, if_neg (by rw [length_append, length_cons]; omega)]
      rfl
    · have hlength : (out ++ [b]).length = out.length + 1 := length_append
      rw [if_neg hlast]
      refine (ih (out ++ [b]) (by rw [hlength]; omega) (by rw [hlength]; omega)).trans ?_
      rw [append_assoc]
      rfl

theorem length_decodeGroup (w1 w2 w3 w4 : Digit) : (decodeGroup w1 w2 w3 w4).length ≤ 3 := by
  have hpair (a b : Digit) : pairCount a b ≤ 1 := by
    cases a <;> cases b <;> simp [pairCount]
  have h1 := hpair w1 w2
  have h2 := hpair w2 w3
  have h3 := hpair w3 w4
  simp only [decodeGroup, length_append, length_outByte]
  omega

/-- The loop writes what it decodes, until there is too much of it.  Three quarters of the
characters that are taken bound the bytes that are out, and with those that are left, what the
buffer was made for. -/
theorem decodeLoopInto_eq {n : Nat} (s : List UInt8) (tmpval : List Digit) (out : List UInt8)
    (hsize : size = n / 4 * 3 + 3) (hleft : 4 * out.length + 3 * (tmpval.length + s.length) ≤ 3 * n)
    (htmp : tmpval.length < 4) (hout : out.length < 2 ^ 31) :
    decodeLoopInto size s tmpval out =
      if (decodeLoop s tmpval out).length < 2 ^ 31 then .ok (decodeLoop s tmpval out)
      else .error .intOverflow := by
  induction s generalizing tmpval out with
  | nil => rw [decodeLoopInto, decodeLoop, if_pos hout]
  | cons c s ih =>
    rw [length_cons] at hleft
    have hskip := ih tmpval out (by omega) htmp hout
    rw [decodeLoopInto, decodeLoop]
    by_cases hblank : isBase64Blank c
    · rw [if_pos hblank, if_pos hblank, hskip]
    rw [if_neg hblank, if_neg hblank]
    by_cases hc : c = 0
    · rw [if_pos hc, if_pos hc, if_pos hout]
    rw [if_neg hc, if_neg hc]
    generalize base64Table c = wv
    by_cases hshort : tmpval.length = 3
    · obtain ⟨w1, w2, w3, rfl⟩ := length_eq_three.mp hshort
      have hthree := length_decodeGroup w1 w2 w3 wv
      have hlength : (out ++ decodeGroup w1 w2 w3 wv).length =
          out.length + (decodeGroup w1 w2 w3 wv).length := length_append
      have hle := @length_le_decodeLoop s [] (out ++ decodeGroup w1 w2 w3 wv)
        (by decide)
      simp only [length_cons, length_nil] at hleft
      have hgroup : ((decodeGroup w1 w2 w3 wv).foldlM (writeByte size) out >>= fun out =>
          decodeLoopInto size s [] out) =
            if (decodeLoop s [] (out ++ decodeGroup w1 w2 w3 wv)).length < 2 ^ 31 then
              .ok (decodeLoop s [] (out ++ decodeGroup w1 w2 w3 wv))
            else .error .intOverflow := by
        rw [foldlM_writeByte _ out (by omega) hout]
        by_cases hmany : (out ++ decodeGroup w1 w2 w3 wv).length < 2 ^ 31
        · rw [if_pos hmany]
          exact ih [] _ (by rw [hlength, length_nil]; omega) (by decide) hmany
        · rw [if_neg hmany, if_neg (by omega)]
          rfl
      cases wv with
      | other => exact hskip
      | value v => exact hgroup
      | pad => exact hgroup
    · obtain _ | ⟨w1, _ | ⟨w2, _ | ⟨w3, rest⟩⟩⟩ := tmpval
        <;> try (simp only [length_cons] at htmp hshort; omega)
      all_goals
        simp only [length_cons, length_nil] at hleft
        cases wv with
        | other => exact hskip
        | value v =>
          exact ih _ out (by
            simp only [length_append, length_cons, length_nil]
            omega) (by simp) hout
        | pad =>
          exact ih _ out (by
            simp only [length_append, length_cons, length_nil]
            omega) (by simp) hout

end Inside

theorem base64decodeInto_eq {buf : List UInt8} {size : Nat} (hne : base64Text buf size ≠ []) :
    base64decodeInto buf size =
      if byteCount (digitsOf (base64Text buf size)) < 2 ^ 31 then
        .ok (some (base64decode (base64Text buf size), byteCount (digitsOf (base64Text buf size))))
      else .error .intOverflow := by
  generalize htext : base64Text buf size = text at hne
  have hlength : (base64decode text).length = byteCount (digitsOf text) := by
    rw [base64decode_eq, length_decodeDigits]
  have hpos := length_pos_iff.mpr hne
  simp only [base64decodeInto, htext]
  rw [if_neg (by omega), decodeLoopInto_eq text [] [] rfl (by simp) (by decide) (by decide),
    ← base64decode, hlength]
  by_cases hmany : byteCount (digitsOf text) < 2 ^ 31
  · have hinside := four_mul_byteCount_le (digitsOf text)
    have hdigits := length_digitsOf_le text
    rw [if_pos hmany, if_pos hmany]
    refine (if_neg (by omega)).trans ?_
    rw [hlength]
  · rw [if_neg hmany, if_neg hmany]
    rfl

/-! ## Blanks -/

/-- The second text is the first with blanks put in. -/
inductive Blanked : List UInt8 → List UInt8 → Prop
  | nil : Blanked [] []
  | keep {t s : List UInt8} (c : UInt8) : Blanked t s → Blanked (c :: t) (c :: s)
  | blank {t s : List UInt8} {c : UInt8} : isBase64Blank c → Blanked t s → Blanked t (c :: s)

theorem Blanked.refl : ∀ t, Blanked t t
  | [] => .nil
  | c :: t => .keep c (refl t)

theorem Blanked.digitsOf_eq {t s : List UInt8} (h : Blanked t s) : digitsOf s = digitsOf t := by
  induction h with
  | nil => rfl
  | keep c _ ih =>
    by_cases hc : c = 0
    · rw [hc, digitsOf_nul, digitsOf_nul]
    by_cases hother : base64Table c = .other
    · rw [digitsOf_other hc hother, digitsOf_other hc hother, ih]
    · rw [digitsOf_digit hc hother, digitsOf_digit hc hother, ih]
  | blank hc _ ih => rw [digitsOf_blank hc, ih]

theorem Blanked.base64decode {x s : List UInt8} (h : Blanked (base64encode x) s) :
    base64decode s = x := by
  have hx := decodeLoop_encode x [] []
  rw [append_nil, nil_append] at hx
  rw [base64decode_eq, h.digitsOf_eq, ← base64decode_eq]
  exact hx

/-! ## Chunks -/

theorem base64encode_append {a : List UInt8} (h : 3 ∣ a.length) (b : List UInt8) :
    base64encode (a ++ b) = base64encode a ++ base64encode b := by
  induction a using base64encode.induct with
  | case1 => rfl
  | case2 a => simp at h
  | case3 a b => simp at h
  | case4 a b c rest ih =>
    have hrest : 3 ∣ rest.length := by
      simp only [length_cons] at h
      omega
    rw [cons_append, cons_append, cons_append, base64encode, base64encode, ih hrest, append_assoc]

/-- **Chunks of threes**, but for the last one, are encoded one by one. -/
theorem base64encode_chunks (chunks : List (List UInt8))
    (h : ∀ chunk ∈ chunks.dropLast, 3 ∣ chunk.length) :
    chunks.flatMap base64encode = base64encode chunks.flatten := by
  induction chunks with
  | nil => rfl
  | cons chunk chunks ih =>
    cases chunks with
    | nil => simp
    | cons next chunks =>
      rw [dropLast_cons_cons] at h
      rw [flatMap_cons, flatten_cons, base64encode_append (h chunk mem_cons_self),
        ih fun c hc => h c (mem_cons_of_mem chunk hc)]

/-! ## The main result -/

/-- What is asked of the two functions, for bytes to encode and for any text: the bytes come back
from every text that has blanks in between, whether its size is given or not; nothing is written
outside the buffer; and chunks of threes may be encoded one by one. -/
structure Base64Right (x buf : List UInt8) (size : Nat) : Prop where
  roundTrip : x ≠ [] → ∀ s, Blanked (base64encode x) s → ∀ size, size = 0 ∨ size = s.length →
    base64decodeInto s size = .ok (some (x, x.length))
  inside : ∃ r, base64decodeInto buf size = .ok r
  chunks : ∀ chunks : List (List UInt8), chunks.flatten = x →
    (∀ chunk ∈ chunks.dropLast, 3 ∣ chunk.length) → chunks.flatMap base64encode = base64encode x

theorem base64decodeInto_isOk (buf : List UInt8) (size : Nat) :
    (∃ r, base64decodeInto buf size = .ok r) ↔
      byteCount (digitsOf (base64Text buf size)) < 2 ^ 31 := by
  by_cases hne : base64Text buf size = []
  · refine iff_of_true ⟨none, ?_⟩ ?_
    · rw [base64decodeInto, hne]
      rfl
    · rw [hne]
      decide
  · rw [base64decodeInto_eq hne]
    by_cases hmany : byteCount (digitsOf (base64Text buf size)) < 2 ^ 31
    · rw [if_pos hmany]
      exact iff_of_true ⟨_, rfl⟩ hmany
    · rw [if_neg hmany]
      exact iff_of_false (fun ⟨_, h⟩ => nomatch h) hmany

theorem base64decodeInto_encoded {x s : List UInt8} (hx : x ≠ []) (h : Blanked (base64encode x) s)
    {size : Nat} (hsize : size = 0 ∨ size = s.length) : base64decodeInto s size =
      if x.length < 2 ^ 31 then .ok (some (x, x.length)) else .error .intOverflow := by
  have hfront : digitsOf (s.takeWhile (· != 0)) = digitsOf s := by
    have hno : ∀ c ∈ s.takeWhile (· != 0), (c != 0) = true := fun c hc =>
      mem_takeWhile_imp (p := (· != 0)) hc
    rw [digitsOf, takeWhile_eq_self_iff.mpr hno, digitsOf]
  have htext : digitsOf (base64Text s size) = digitsOf s := by
    rcases hsize with rfl | rfl
    · exact hfront
    · rw [base64Text]
      split
      · rw [take_length]
      · exact hfront
  have hdecode : base64decode (base64Text s size) = x := by
    rw [base64decode_eq, htext, ← base64decode_eq]
    exact h.base64decode
  have hcount : byteCount (digitsOf (base64Text s size)) = x.length := by
    rw [← length_decodeDigits, ← base64decode_eq, hdecode]
  have hne : base64Text s size ≠ [] := by
    intro hnil
    rw [hnil] at hdecode
    exact hx hdecode.symm
  rw [base64decodeInto_eq hne, hcount, hdecode]

/-- **base64.**  The round trip and the buffer are right exactly if an `int` can count the bytes
that are decoded. -/
theorem base64_iff (x buf : List UInt8) (size : Nat) : Base64Right x buf size ↔
    x.length < 2 ^ 31 ∧ byteCount (digitsOf (base64Text buf size)) < 2 ^ 31 := by
  have hchunks : ∀ chunks : List (List UInt8), chunks.flatten = x →
      (∀ chunk ∈ chunks.dropLast, 3 ∣ chunk.length) →
      chunks.flatMap base64encode = base64encode x := by
    rintro chunks rfl h
    exact base64encode_chunks chunks h
  constructor
  · intro h
    refine ⟨?_, (base64decodeInto_isOk buf size).mp h.inside⟩
    by_cases hx : x = []
    · rw [hx]
      decide
    by_contra hlong
    have hrun := h.roundTrip hx _ (.refl _) 0 (.inl rfl)
    rw [base64decodeInto_encoded hx (.refl _) (.inl rfl), if_neg hlong] at hrun
    cases hrun
  · rintro ⟨hx, htext⟩
    refine ⟨fun hne s hs size hsize => ?_, (base64decodeInto_isOk buf size).mpr htext, hchunks⟩
    rw [base64decodeInto_encoded hne hs hsize, if_pos hx]

/-- Two gibibytes: one more than an `int` counts. -/
theorem base64_refuted : ¬ ∀ x buf size, Base64Right x buf size := by
  intro hall
  have hlength : (List.replicate (2 ^ 31) (0 : UInt8)).length = 2 ^ 31 := length_replicate
  have hne : List.replicate (2 ^ 31) (0 : UInt8) ≠ [] := by
    intro hnil
    rw [hnil] at hlength
    cases hlength
  have hrun := (hall (List.replicate (2 ^ 31) 0) [] 0).roundTrip hne _ (.refl _) 0 (.inl rfl)
  rw [base64decodeInto_encoded hne (.refl _) (.inl rfl), hlength, if_neg (Nat.lt_irrefl _)] at hrun
  cases hrun

end IDeviceStack.Libplist
