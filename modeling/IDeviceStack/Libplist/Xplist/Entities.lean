/-
# `Libplist.Xplist.Entities` — the references in a text

`unescape_entities` replaces what stands between an `&` and the next `;`.  The grammar
it is for has five names and the numbers `&#d+;` and `&#xh+;` with a value of 1 to
0x10FFFF, and for each of them the UTF-8 of its character.

The function knows a name by its beginning, so that `&ampere;` is an `&`; it takes a
number of at most eight characters, and what `strtoull` takes for one, which may begin
with blanks, a sign or a second `0x`; it gives a surrogate three bytes that are no
UTF-8; and it never looks at the last byte of a text, which may be an `&`.

**Proved here.**  `cut`, `unescapeLoop_cut`, `unescapeEntities_iff`.
-/
import IDeviceStack.Libplist.Bplist.Utf16
import IDeviceStack.Libplist.Xplist.Measured
import IDeviceStack.Libplist.Xplist.Reread

namespace IDeviceStack.Libplist.Xplist

open List

/-! ## The grammar -/

/-- The value of digits. -/
def numeral (base : Nat) (ds : List UInt8) : Nat :=
  ds.foldl (fun v c => v * base + digitValue c) 0

/-- What may stand between `&` and `;`, with the number of its character. -/
inductive Reference : List UInt8 → Nat → Prop where
  | amp : Reference (lit "amp") 38
  | lt : Reference (lit "lt") 60
  | gt : Reference (lit "gt") 62
  | quot : Reference (lit "quot") 34
  | apos : Reference (lit "apos") 39
  | decimal {ds : List UInt8} (digits : ∀ c ∈ ds, digitValue c < 10) (pos : 1 ≤ numeral 10 ds)
      (max : numeral 10 ds ≤ 0x10FFFF) : Reference (ch '#' :: ds) (numeral 10 ds)
  | hex {ds : List UInt8} (digits : ∀ c ∈ ds, digitValue c < 16) (pos : 1 ≤ numeral 16 ds)
      (max : numeral 16 ds ≤ 0x10FFFF) : Reference (ch '#' :: ch 'x' :: ds) (numeral 16 ds)

/-- Every `&` begins a reference. -/
def Grammatical (s : List UInt8) : Prop :=
  ∀ a b, s = a ++ ch '&' :: b → ∃ name v rest, b = name ++ ch ';' :: rest ∧ Reference name v

/-- The text with the UTF-8 of its character for every reference. -/
inductive Expands : List UInt8 → List UInt8 → Prop where
  | nil : Expands [] []
  | byte {c : UInt8} {s t : List UInt8} (plain : c ≠ ch '&') (rest : Expands s t) :
      Expands (c :: s) (c :: t)
  | reference {name s t : List UInt8} {c : Char} (ref : Reference name c.toNat)
      (rest : Expands s t) :
      Expands (ch '&' :: (name ++ ch ';' :: s)) (String.utf8EncodeChar c ++ t)

/-- `unescape_entities` succeeds on the text exactly if every `&` begins a reference, and then the
result is the text with every reference replaced. -/
def FollowsGrammar (s : List UInt8) : Prop :=
  ∃ o, unescapeEntities s = .ok o ∧ (o.isSome ↔ Grammatical s) ∧ ∀ r, o = some r → Expands s r

/-! ## Pieces -/

/-- A byte of the text, what stands between an `&` and the next `;`, or all that is behind an `&`
without one. -/
inductive Piece where
  | byte (c : UInt8)
  | ref (name : List UInt8)
  | unended (rest : List UInt8)
  deriving DecidableEq, Repr

/-- `cut`, with at most so many pieces. -/
def cutLoop : Nat → List UInt8 → List Piece
  | 0, _ => []
  | _ + 1, [] => []
  | n + 1, c :: s =>
    if c ≠ ch '&' then .byte c :: cutLoop n s
    else
      let name := s.takeWhile (· ≠ ch ';')
      if name.length < s.length then .ref name :: cutLoop n (s.drop (name.length + 1))
      else [.unended s]

/-- The pieces of a text. -/
def cut (s : List UInt8) : List Piece := cutLoop s.length s

/-- What the function makes of a reference. -/
def codeRef (name : List UInt8) : Option (List UInt8) :=
  if name = [] then none else entityBytes name name.length

variable {x : List UInt8} {c : UInt8}

/-- `unescape_entities` on pieces; `entlen` is an `int`. -/
def unescapePieces : List UInt8 → List Piece → Except Stop (Option (List UInt8))
  | done, [] => .ok (some done)
  | done, .byte c :: ps => unescapePieces (done ++ [c]) ps
  | done, .ref name :: ps =>
    match codeRef name with
    | none => .ok none
    | some bytes =>
      if name.length + 2 < 2 ^ 31 then unescapePieces (done ++ bytes) ps else .error .overflow
  | done, .unended s :: _ => if s = [] then .ok (some (done ++ [ch '&'])) else .ok none

/-! ## What is behind the `;` does not matter -/

theorem takeWhile_stop {p : UInt8 → Bool} (hc : p c = false) (r : List UInt8) :
    (x ++ c :: r).takeWhile p = x.takeWhile p := by
  induction x with
  | nil => simp [hc]
  | cons a x ih =>
    rw [cons_append, takeWhile_cons, takeWhile_cons, ih]

theorem headD_stop {d : UInt8} (hd : d ≠ 0) (hc : d ≠ c) (r : List UInt8) :
    (x ++ c :: r).headD 0 = d ↔ x.headD 0 = d := by
  cases x with
  | nil => exact ⟨fun h => absurd h.symm hc, fun h => absurd h.symm hd⟩
  | cons a x => exact Iff.rfl

theorem prefix_stop {l : List UInt8} (hl : ch ';' ∉ l) (r : List UInt8) :
    l <+: x ++ ch ';' :: r ↔ l <+: x := by
  refine ⟨fun h => ?_, fun h => h.trans (prefix_append _ _)⟩
  rcases Nat.lt_or_ge x.length l.length with hlong | hshort
  · have hlt : x.length < (x ++ ch ';' :: r).length := by simp
    have hget := h.getElem hlong
    rw [getElem_append_right (Nat.le_refl _)] at hget
    simp only [Nat.sub_self, getElem_cons_zero] at hget
    exact absurd (hget ▸ getElem_mem hlong) hl
  · exact prefix_of_prefix_length_le h (prefix_append _ _) hshort

/-- A character that no number goes on with. -/
def EndsNumber (c : UInt8) : Prop :=
  digitValue c = 36 ∧ isSpace c = false ∧ c ≠ ch '-' ∧ c ≠ ch '+'

instance (c : UInt8) : Decidable (EndsNumber c) := inferInstanceAs (Decidable (_ ∧ _))

theorem numberBase_stop (base : Nat) (hc : EndsNumber c) (x r : List UInt8) :
    numberBase base (x ++ c :: r) = numberBase base x := by
  have hstop : c ≠ ch '0' ∧ c ≠ ch 'x' ∧ c ≠ ch 'X' ∧ ¬ digitValue c < 16 := by
    have hvalue := hc.1
    refine ⟨?_, ?_, ?_, by omega⟩
    · rintro rfl
      exact absurd hvalue (by decide)
    · rintro rfl
      exact absurd hvalue (by decide)
    · rintro rfl
      exact absurd hvalue (by decide)
  have hend : 0 ≠ ch '0' ∧ 0 ≠ ch 'x' ∧ 0 ≠ ch 'X' ∧ ¬ digitValue 0 < 16 := by decide
  match x with
  | [] => simp [numberBase, hstop, hend]
  | [a] => simp [numberBase, hstop, hend]
  | [a, b] => simp [numberBase, hstop, hend]
  | a :: b :: d :: x => rfl

variable {base : Nat}

theorem numberBase_le (hbase : base ≤ 36) (x : List UInt8) :
    (numberBase base x).1 ≤ 36 ∧ (numberBase base x).2 ≤ x.length := by
  rw [numberBase]
  split
  · rename_i h
    have hend : ¬ digitValue 0 < 16 := by decide
    obtain _ | ⟨a, _ | ⟨b, _ | ⟨c, x⟩⟩⟩ := x
    · exact absurd h.2.2.2 hend
    · exact absurd h.2.2.2 hend
    · exact absurd h.2.2.2 hend
    · simp
  · split
    · split <;> simp
    · simp [hbase]

theorem strtoull_stop (hbase : base ≤ 36) (hc : EndsNumber c) (x r : List UInt8) :
    strtoull base (x ++ c :: r) = strtoull base x := by
  have hblanks : (x ++ c :: r).takeWhile isSpace = x.takeWhile isSpace :=
    takeWhile_stop hc.2.1 r
  have hdrop (y : List UInt8) {n : Nat} (h : n ≤ y.length) :
      (y ++ c :: r).drop n = y.drop n ++ c :: r := drop_append_of_le_length h
  simp only [strtoull, hblanks, hdrop x ( takeWhile_prefix _).length_le]
  generalize x.drop (x.takeWhile isSpace).length = y
  have hminus : (y ++ c :: r).headD 0 = ch '-' ↔ y.headD 0 = ch '-' :=
    headD_stop (by decide) hc.2.2.1.symm r
  have hplus : (y ++ c :: r).headD 0 = ch '+' ↔ y.headD 0 = ch '+' :=
    headD_stop (by decide) hc.2.2.2.symm r
  have hsign : (if y.headD 0 = ch '-' ∨ y.headD 0 = ch '+' then 1 else 0) ≤ y.length := by
    cases y with
    | nil => exact Nat.le_of_eq (if_neg (by decide))
    | cons a y => split <;> simp
  simp only [hminus, hplus, hdrop y hsign]
  generalize y.drop _ = z
  obtain ⟨hle, hpre⟩ := numberBase_le hbase z
  have hdigits : digitsOf (numberBase base z).1 ((z ++ c :: r).drop (numberBase base z).2) =
      digitsOf (numberBase base z).1 (z.drop (numberBase base z).2) := by
    rw [hdrop z hpre]
    refine takeWhile_stop (decide_eq_false ?_) r
    have hvalue := hc.1
    omega
  rw [numberBase_stop base hc, hdigits]

theorem getD_stop {d : UInt8} (hd : d ≠ 0) (hsemi : d ≠ ch ';') {a : UInt8} (r : List UInt8) :
    (a :: x ++ ch ';' :: r).getD 1 0 = d ↔ (a :: x).getD 1 0 = d := by
  cases x with
  | nil => exact ⟨fun h => absurd h.symm hsemi, fun h => absurd h.symm hd⟩
  | cons b x => exact Iff.rfl

theorem entityBytes_stop (name r : List UInt8) (hne : name ≠ []) :
    entityBytes (name ++ ch ';' :: r) name.length = codeRef name := by
  obtain ⟨a, name, rfl⟩ := exists_cons_of_ne_nil hne
  have hx : (a :: name ++ ch ';' :: r).getD 1 0 = ch 'x' ↔ (a :: name).getD 1 0 = ch 'x' :=
    getD_stop (by decide) (by decide) r
  have hX : (a :: name ++ ch ';' :: r).getD 1 0 = ch 'X' ↔ (a :: name).getD 1 0 = ch 'X' :=
    getD_stop (by decide) (by decide) r
  have hhash : (a :: name ++ ch ';' :: r).headD 0 = ch '#' ↔ (a :: name).headD 0 = ch '#' := Iff.rfl
  have hpre : (if (a :: name).getD 1 0 = ch 'x' ∨ (a :: name).getD 1 0 = ch 'X' then 2 else 1) ≤
      (a :: name).length := by
    cases name with
    | nil =>
      have hend : ¬ ((0 : UInt8) = ch 'x' ∨ (0 : UInt8) = ch 'X') := by decide
      exact Nat.le_of_eq (if_neg hend)
    | cons b name => split <;> simp
  have hbase : (if (a :: name).getD 1 0 = ch 'x' ∨ (a :: name).getD 1 0 = ch 'X' then 16
      else 10) ≤ 36 := by
    split <;> decide
  rw [codeRef, if_neg hne, entityBytes, entityBytes]
  simp only [prefix_stop (x := a :: name) (l := lit "amp") (by decide),
    prefix_stop (x := a :: name) (l := lit "apos") (by decide),
    prefix_stop (x := a :: name) (l := lit "quot") (by decide),
    prefix_stop (x := a :: name) (l := lit "lt") (by decide),
    prefix_stop (x := a :: name) (l := lit "gt") (by decide), hhash, hx, hX,
    drop_append_of_le_length hpre, strtoull_stop hbase (show EndsNumber (ch ';') by decide)]

/-! ## The function on pieces -/

variable {n : Nat} {s : List UInt8}

/-- **`unescape_entities`** goes from piece to piece. -/
theorem unescapeLoop_cut {fuel : Nat} (done : List UInt8) (hfuel : s.length < fuel)
    (hn : s.length ≤ n) : unescapeLoop fuel done s = unescapePieces done (cutLoop n s) := by
  induction fuel generalizing n done s with
  | zero => omega
  | succ fuel ih =>
    match s, hfuel, hn with
    | [], _, _ =>
      cases n with
      | zero => rfl
      | succ n => rfl
    | [c], _, hn =>
      obtain ⟨n, rfl⟩ := Nat.exists_eq_add_of_le' (show 1 ≤ n from hn)
      have hrest : cutLoop n ([] : List UInt8) = [] := by
        cases n with
        | zero => rfl
        | succ n => rfl
      rw [unescapeLoop, cutLoop, hrest]
      by_cases hc : c = ch '&'
      · rw [if_neg (not_not.mpr hc), hc]
        rfl
      · rw [if_pos hc]
        rfl
    | c :: d :: s, hfuel, hn =>
      rw [length_cons] at hfuel hn
      have hcons : (d :: s).length = s.length + 1 := length_cons
      obtain ⟨n, rfl⟩ := Nat.exists_eq_add_of_le' (show 1 ≤ n by omega)
      rw [unescapeLoop, cutLoop]
      by_cases hc : c = ch '&'
      · rw [if_pos hc, if_neg (not_not.mpr hc)]
        obtain ⟨name, hname⟩ : ∃ name, (d :: s).takeWhile (· ≠ ch ';') = name := ⟨_, rfl⟩
        simp only [hname]
        by_cases hend : name.length < (d :: s).length
        · obtain ⟨x, rest, hsplit, hx⟩ := takeWhile_split (p := (· ≠ ch ';')) (s := d :: s)
            (by rw [hname]; exact hend)
          obtain rfl : x = ch ';' := by simpa using hx
          rw [hname] at hsplit
          have hdrop : (d :: s).drop (name.length + 1) = rest := by
            rw [hsplit, drop_length_add_append]
            rfl
          have hlen : rest.length ≤ s.length := by
            rw [← hdrop, length_drop, length_cons]
            omega
          rw [if_neg (by omega), if_pos hend, unescapePieces, hdrop]
          by_cases hne : name = []
          · rw [if_neg (by rw [hne]; decide), codeRef, if_pos hne]
          have hpos := length_pos_iff.mpr hne
          rw [if_pos (by omega), hsplit, entityBytes_stop name rest hne]
          cases codeRef name with
          | none => rfl
          | some bytes =>
            dsimp only
            split
            · exact ih (done ++ bytes) (by omega) (by omega)
            · rfl
        · rw [if_pos (by omega), if_neg hend, unescapePieces, if_neg (cons_ne_nil d s)]
      · rw [if_neg hc, if_pos hc, unescapePieces]
        exact ih (done ++ [c]) (by omega) (by omega)

theorem unescapeEntities_cut (s : List UInt8) : unescapeEntities s = unescapePieces [] (cut s) :=
  unescapeLoop_cut [] (Nat.lt_succ_self _) (Nat.le_refl _)

/-! ## References of the grammar -/

theorem plain_of_hexDigit (h : digitValue c < 16) :
    isSpace c = false ∧ c ≠ ch '-' ∧ c ≠ ch '+' ∧ c ≠ ch 'x' ∧ c ≠ ch 'X' ∧ c ≠ ch '&' := by
  have hall : ∀ n : Fin 256, digitValue (UInt8.ofNat n) < 16 → isSpace (UInt8.ofNat n) = false ∧
      UInt8.ofNat n ≠ ch '-' ∧ UInt8.ofNat n ≠ ch '+' ∧ UInt8.ofNat n ≠ ch 'x' ∧
      UInt8.ofNat n ≠ ch 'X' ∧ UInt8.ofNat n ≠ ch '&' := by
    decide +kernel
  have hc := hall ⟨c.toNat, c.toNat_lt⟩
  simp only [UInt8.ofNat_toNat] at hc
  exact hc h

theorem strtoull_digits (hbase : base = 10 ∨ base = 16) {ds : List UInt8}
    (hds : ∀ c ∈ ds, digitValue c < base) (hne : ds ≠ []) (hmax : numeral base ds < 2 ^ 64) :
    strtoull base ds = (numeral base ds, ds.length) := by
  obtain ⟨c, cs, rfl⟩ := exists_cons_of_ne_nil hne
  have hhex (x : UInt8) (hx : x ∈ c :: cs) : digitValue x < 16 := by
    have hlt := hds x hx
    omega
  have hplain := plain_of_hexDigit (hhex c mem_cons_self)
  have hblanks : (c :: cs).takeWhile isSpace = [] :=
    takeWhile_cons_of_neg (by simp [hplain.1])
  have hnum : numberBase base (c :: cs) = (base, 0) := by
    have hx : (c :: cs).getD 1 0 ≠ ch 'x' ∧ (c :: cs).getD 1 0 ≠ ch 'X' := by
      cases cs with
      | nil => exact (show (0 : UInt8) ≠ ch 'x' ∧ (0 : UInt8) ≠ ch 'X' by decide)
      | cons d cs =>
        have hd := plain_of_hexDigit (hhex d (by simp))
        exact ⟨hd.2.2.2.1, hd.2.2.2.2.1⟩
    have hno : ¬ ((base = 0 ∨ base = 16) ∧ (c :: cs).headD 0 = ch '0' ∧
        ((c :: cs).getD 1 0 = ch 'x' ∨ (c :: cs).getD 1 0 = ch 'X') ∧
        digitValue ((c :: cs).getD 2 0) < 16) := by
      rintro ⟨-, -, h | h, -⟩
      · exact hx.1 h
      · exact hx.2 h
    rw [numberBase, if_neg hno, if_neg (by omega)]
  have hdigits : digitsOf base (c :: cs) = c :: cs :=
    takeWhile_eq_self_iff.mpr fun x hx => by simpa using hds x hx
  rw [strtoull]
  simp only [hblanks, length_nil, drop_zero, headD_cons, hplain.2.1, hplain.2.2.1,
    or_self, if_false, hnum, hdigits, reduceCtorEq]
  rw [numeral] at hmax
  rw [if_neg (by omega), numeral]
  simp only [Nat.zero_add]

/-- A number in `base`, as `strtoull` reads it. -/
def numberRef (base : Nat) (ds : List UInt8) : Option (List UInt8) :=
  let (val, used) := strtoull base ds
  if val = 0 ∨ val > 0x10FFFF ∨ used ≠ ds.length then none else some (utf8Bytes val)

theorem not_prefix_hash {l : List UInt8} (hl : l.headD 0 ≠ ch '#') (hne : l ≠ [])
    (ds : List UInt8) : ¬ l <+: ch '#' :: ds := by
  obtain ⟨a, l, rfl⟩ := exists_cons_of_ne_nil hne
  rw [cons_prefix_cons]
  exact fun h => hl h.1

theorem codeRef_number (ds : List UInt8) :
    codeRef (ch '#' :: ds) =
      if 8 < ds.length + 1 then none
      else if ds.headD 0 = ch 'x' ∨ ds.headD 0 = ch 'X' then numberRef 16 ds.tail
      else numberRef 10 ds := by
  have hnil (base : Nat) : strtoull base [] = (0, 0) := by
    simp [strtoull, digitsOf]
  rw [codeRef, if_neg (cons_ne_nil _ _), entityBytes,
    if_neg (not_prefix_hash (by decide) (by decide) ds),
    if_neg (not_prefix_hash (by decide) (by decide) ds),
    if_neg (not_prefix_hash (by decide) (by decide) ds),
    if_neg (not_prefix_hash (by decide) (by decide) ds),
    if_neg (not_prefix_hash (by decide) (by decide) ds),
    if_pos (show (ch '#' :: ds).headD 0 = ch '#' from rfl), length_cons]
  by_cases hlong : 8 < ds.length + 1
  · rw [if_pos hlong, if_pos hlong]
  rw [if_neg hlong, if_neg hlong]
  have hhead : (ch '#' :: ds).getD 1 0 = ds.headD 0 := by
    cases ds with
    | nil => rfl
    | cons d ds => rfl
  simp only [hhead]
  by_cases hx : ds.headD 0 = ch 'x' ∨ ds.headD 0 = ch 'X'
  · obtain ⟨d, hs, rfl⟩ : ∃ d hs, ds = d :: hs := by
      cases ds with
      | nil => exact absurd hx (show ¬ ((0 : UInt8) = ch 'x' ∨ (0 : UInt8) = ch 'X') by decide)
      | cons d hs => exact ⟨d, hs, rfl⟩
    simp only [if_pos hx, drop_succ_cons, drop_zero, tail_cons, length_cons]
    by_cases hshort : hs.length + 1 + 1 < 3
    · have hnone : hs = [] := length_eq_zero_iff.mp (by omega)
      rw [if_pos hshort, hnone, numberRef, hnil]
      rfl
    · have hused (used : Nat) : 2 + used ≠ hs.length + 1 + 1 ↔ used ≠ hs.length := by omega
      simp only [if_neg hshort, numberRef, hused]
  · have hused (used : Nat) : 1 + used ≠ ds.length + 1 ↔ used ≠ ds.length := by omega
    simp only [if_neg hx, drop_succ_cons, drop_zero, numberRef, hused]
    by_cases hshort : ds.length + 1 < 2
    · have hnone : ds = [] := length_eq_zero_iff.mp (by omega)
      rw [if_pos hshort, hnone, hnil]
      rfl
    · rw [if_neg hshort]

variable {name : List UInt8} {v : Nat}

theorem codeRef_reference (h : Reference name v) :
    codeRef name = if name.length ≤ 8 then some (utf8Bytes v) else none := by
  have hread {base : Nat} (hbase : base = 10 ∨ base = 16) {ds : List UInt8}
      (digits : ∀ c ∈ ds, digitValue c < base) (pos : 1 ≤ numeral base ds)
      (max : numeral base ds ≤ 0x10FFFF) :
      numberRef base ds = some (utf8Bytes (numeral base ds)) := by
    have hne : ds ≠ [] := by
      rintro rfl
      exact absurd pos (Nat.not_succ_le_zero 0)
    rw [numberRef, strtoull_digits hbase digits hne (by omega)]
    exact if_neg (by omega)
  cases h with
  | amp => decide
  | lt => decide
  | gt => decide
  | quot => decide
  | apos => decide
  | @decimal ds digits pos max =>
    have hx : ¬ (ds.headD 0 = ch 'x' ∨ ds.headD 0 = ch 'X') := by
      cases ds with
      | nil => exact (show ¬ ((0 : UInt8) = ch 'x' ∨ (0 : UInt8) = ch 'X') by decide)
      | cons d ds =>
        have hd := digits d mem_cons_self
        have hplain := plain_of_hexDigit (show digitValue d < 16 by omega)
        exact not_or.mpr ⟨hplain.2.2.2.1, hplain.2.2.2.2.1⟩
    rw [codeRef_number, if_neg hx, hread (.inl rfl) digits pos max, length_cons]
    by_cases hlong : 8 < ds.length + 1
    · rw [if_pos hlong, if_neg (by omega)]
    · rw [if_neg hlong, if_pos (by omega)]
  | @hex ds digits pos max =>
    have hx : (ch 'x' :: ds).headD 0 = ch 'x' ∨ (ch 'x' :: ds).headD 0 = ch 'X' := .inl rfl
    rw [codeRef_number, if_pos hx, tail_cons, hread (.inr rfl) digits pos max,
      length_cons, length_cons, length_cons]
    by_cases hlong : 8 < ds.length + 1 + 1
    · rw [if_pos hlong, if_neg (by omega)]
    · rw [if_neg hlong, if_pos (by omega)]

theorem utf8Bytes_char (c : Char) : utf8Bytes c.toNat = String.utf8EncodeChar c := by
  have hrange := Bplist.char_range c
  obtain ⟨v, hv⟩ : ∃ v, c.val.toNat = v := ⟨_, rfl⟩
  have m7 (x : Nat) : x &&& 0x7 = x % 8 := Bplist.and_low x 3
  have mF (x : Nat) : x &&& 0xF = x % 16 := Bplist.and_low x 4
  have m1F (x : Nat) : x &&& 0x1F = x % 32 := Bplist.and_low x 5
  have m3F (x : Nat) : x &&& 0x3F = x % 64 := Bplist.and_low x 6
  have m7F (x : Nat) : x &&& 0x7F = x % 128 := Bplist.and_low x 7
  have hnat : c.toNat = v := hv
  simp only [String.utf8EncodeChar, utf8Bytes, hnat, hv, m7, mF, m1F, m3F, m7F,
    Nat.shiftRight_eq_div_pow] at hrange ⊢
  by_cases h1 : v ≤ 0x7f
  · rw [if_neg (by omega), if_neg (by omega), if_neg (by omega), if_pos h1,
      Nat.mod_eq_of_lt (by omega)]
  rw [if_neg h1]
  by_cases h2 : v ≤ 0x7ff
  · rw [if_neg (by omega), if_neg (by omega), if_pos (by omega), if_pos h2, Nat.add_comm 0xC0,
      Nat.add_comm 0x80]
  rw [if_neg h2]
  by_cases h3 : v ≤ 0xffff
  · rw [if_neg (by omega), if_pos (by omega), if_pos h3, Nat.add_comm 0xE0, Nat.add_comm 0x80,
      Nat.add_comm 0x80]
  · rw [if_pos (by omega), if_neg h3, Nat.add_comm 0xF0, Nat.add_comm 0x80, Nat.add_comm 0x80,
      Nat.add_comm 0x80]

theorem Reference.name_plain (h : Reference name v) : ∀ c ∈ name, c ≠ ch '&' ∧ c ≠ ch ';' := by
  have hsemi {c : UInt8} (hc : digitValue c < 16) : c ≠ ch '&' ∧ c ≠ ch ';' := by
    refine ⟨(plain_of_hexDigit hc).2.2.2.2.2, ?_⟩
    rintro rfl
    exact absurd hc (by decide)
  cases h with
  | amp => decide
  | lt => decide
  | gt => decide
  | quot => decide
  | apos => decide
  | decimal digits =>
    refine forall_mem_cons.mpr ⟨by decide, fun c hc => hsemi ?_⟩
    have hlt := digits c hc
    omega
  | hex digits =>
    exact forall_mem_cons.mpr ⟨by decide, forall_mem_cons.mpr
      ⟨by decide, fun c hc => hsemi (digits c hc)⟩⟩

/-! ## Cutting -/

/-- The piece is in the grammar. -/
def Piece.Grammatical : Piece → Prop
  | .byte _ => True
  | .ref name => ∃ v, Reference name v
  | .unended _ => False

/-- The piece is in the grammar, for a character, and no longer than the function takes it. -/
def Piece.Plain : Piece → Prop
  | .byte _ => True
  | .ref name => (∃ c : Char, Reference name c.toNat) ∧ name.length ≤ 8
  | .unended _ => False

/-- All of `ds` is a number for `strtoull`, and that of a character. -/
def LooseNumber (base : Nat) (ds : List UInt8) : Prop :=
  (strtoull base ds).2 = ds.length ∧ 1 ≤ (strtoull base ds).1 ∧ (strtoull base ds).1 ≤ 0x10FFFF

/-- What the function takes for a reference. -/
def Loose (name : List UInt8) : Prop :=
  lit "amp" <+: name ∨ lit "apos" <+: name ∨ lit "quot" <+: name ∨ lit "lt" <+: name ∨
    lit "gt" <+: name ∨
    ∃ ds, name = ch '#' :: ds ∧ name.length ≤ 8 ∧
      if ds.headD 0 = ch 'x' ∨ ds.headD 0 = ch 'X' then LooseNumber 16 ds.tail
      else LooseNumber 10 ds

/-- The function comes to a reference that it refuses. -/
def Refused : List Piece → Prop
  | [] => False
  | .byte _ :: ps => Refused ps
  | .ref name :: ps => ¬ Loose name ∨ name.length + 2 < 2 ^ 31 ∧ Refused ps
  | .unended s :: _ => s ≠ []

theorem cutLoop_amp (n : Nat) (s : List UInt8) :
    (∃ name rest, (∀ c ∈ name, c ≠ ch ';') ∧ s = name ++ ch ';' :: rest ∧
      cutLoop (n + 1) (ch '&' :: s) = .ref name :: cutLoop n rest) ∨
      ch ';' ∉ s ∧ cutLoop (n + 1) (ch '&' :: s) = [.unended s] := by
  obtain ⟨name, hname⟩ : ∃ name, s.takeWhile (· ≠ ch ';') = name := ⟨_, rfl⟩
  have hno : ∀ c ∈ name, c ≠ ch ';' := by
    intro c hc
    rw [← hname] at hc
    simpa using mem_takeWhile_imp hc
  rw [cutLoop, if_neg (not_not.mpr rfl)]
  simp only [hname]
  by_cases hend : name.length < s.length
  · obtain ⟨x, rest, hsplit, hx⟩ := takeWhile_split (p := (· ≠ ch ';')) (s := s)
      (by rw [hname]; exact hend)
    obtain rfl : x = ch ';' := by simpa using hx
    rw [hname] at hsplit
    have hdrop : s.drop (name.length + 1) = rest := by
      rw [hsplit, drop_length_add_append]
      rfl
    exact .inl ⟨name, rest, hno, hsplit, by rw [if_pos hend, hdrop]⟩
  · refine .inr ⟨?_, if_neg hend⟩
    have hall : name = s := by
      rw [← hname] at hend ⊢
      exact ( takeWhile_prefix _).eq_of_length_le (by omega)
    rw [← hall]
    exact fun hmem => hno _ hmem rfl

theorem Grammatical.tail {a : List UInt8} (h : Grammatical (a ++ s)) : Grammatical s := by
  intro x b hs
  exact h (a ++ x) b (by rw [hs, append_assoc])

theorem grammatical_byte (hc : c ≠ ch '&') (s : List UInt8) :
    Grammatical (c :: s) ↔ Grammatical s := by
  refine ⟨fun h => h.tail (a := [c]), fun h a b hs => ?_⟩
  cases a with
  | nil => exact absurd (List.cons.inj hs).1 hc
  | cons x a => exact h a b (List.cons.inj hs).2

theorem name_unique {name' rest rest' : List UInt8} (h : ∀ c ∈ name, c ≠ ch ';')
    (h' : ∀ c ∈ name', c ≠ ch ';') (heq : name ++ ch ';' :: rest = name' ++ ch ';' :: rest') :
    name = name' ∧ rest = rest' := by
  have htake {l r : List UInt8} (hl : ∀ c ∈ l, c ≠ ch ';') :
      (l ++ ch ';' :: r).takeWhile (· ≠ ch ';') = l := by
    rw [takeWhile_append_of_pos (fun x hx => by simpa using hl x hx),
      takeWhile_cons_of_neg (by simp), append_nil]
  obtain rfl : name = name' := by
    rw [← htake h (r := rest), heq, htake h']
  exact ⟨rfl, (List.cons.inj (append_cancel_left heq)).2⟩

theorem grammatical_ref {name rest : List UInt8} (hname : ∀ c ∈ name, c ≠ ch ';') :
    Grammatical (ch '&' :: (name ++ ch ';' :: rest)) ↔
      (∃ v, Reference name v) ∧ Grammatical rest := by
  constructor
  · intro h
    refine ⟨?_, ?_⟩
    · obtain ⟨name', v, rest', heq, href⟩ := h [] _ rfl
      obtain ⟨rfl, -⟩ := name_unique hname (fun c hc => (href.name_plain c hc).2) heq
      exact ⟨v, href⟩
    · refine Grammatical.tail (a := ch '&' :: (name ++ [ch ';'])) ?_
      rw [cons_append, append_assoc]
      exact h
  · rintro ⟨⟨v, href⟩, hrest⟩ a b heq
    cases a with
    | nil => exact ⟨name, v, rest, (List.cons.inj heq).2.symm, href⟩
    | cons x a =>
      have htail := (List.cons.inj heq).2
      -- the `&` is none of the name, nor the `;`
      rcases append_eq_append_iff.mp htail with ⟨l, rfl, hl⟩ | ⟨l, rfl, hl⟩
      · cases l with
        | nil => exact absurd (List.cons.inj hl).1 (by decide)
        | cons y l => exact hrest l b (List.cons.inj hl).2
      · cases l with
        | nil => exact absurd (List.cons.inj hl).1 (by decide)
        | cons y l =>
          have hy : y = ch '&' := (List.cons.inj hl).1.symm
          exact absurd hy (href.name_plain y (by simp)).1

/-- **The grammar** on pieces. -/
theorem grammatical_cut (hn : s.length ≤ n) : Grammatical s ↔ ∀ p ∈ cutLoop n s, p.Grammatical := by
  induction n generalizing s with
  | zero =>
    obtain rfl := length_eq_zero_iff.mp (Nat.le_zero.mp hn)
    exact iff_of_true (fun a b h => by simp at h) nofun
  | succ n ih =>
    cases s with
    | nil => exact iff_of_true (fun a b h => by simp at h) nofun
    | cons c s =>
      rw [length_cons] at hn
      by_cases hc : c = ch '&'
      · subst hc
        rcases cutLoop_amp n s with ⟨name, rest, hname, rfl, hcut⟩ | ⟨hsemi, hcut⟩
        · rw [length_append, length_cons] at hn
          rw [hcut, grammatical_ref hname, ih (by omega), forall_mem_cons]
          exact Iff.rfl
        · rw [hcut, forall_mem_singleton]
          refine iff_of_false (fun h => ?_) id
          obtain ⟨name, v, rest, rfl, -⟩ := h [] _ rfl
          exact hsemi (by simp)
      · rw [cutLoop, if_pos hc, grammatical_byte hc, ih (by omega), forall_mem_cons]
        exact (and_iff_right trivial).symm

/-! ## The two together -/

theorem numberRef_isSome (base : Nat) (ds : List UInt8) :
    (numberRef base ds).isSome ↔ LooseNumber base ds := by
  rw [numberRef, LooseNumber]
  obtain ⟨val, used⟩ := strtoull base ds
  simp only
  split
  · refine iff_of_false (by simp) ?_
    omega
  · refine iff_of_true rfl ?_
    omega

theorem codeRef_isSome (name : List UInt8) : (codeRef name).isSome ↔ Loose name := by
  have hnil : ¬ (codeRef []).isSome ∧ ¬ Loose [] := by
    refine ⟨nofun, ?_⟩
    rw [Loose]
    rintro (h | h | h | h | h | ⟨ds, h, -⟩)
    · exact absurd h (by decide)
    · exact absurd h (by decide)
    · exact absurd h (by decide)
    · exact absurd h (by decide)
    · exact absurd h (by decide)
    · cases h
  cases name with
  | nil => exact iff_of_false hnil.1 hnil.2
  | cons a ds =>
    by_cases hhash : a = ch '#'
    · subst hhash
      rw [codeRef_number, Loose, or_iff_right (not_prefix_hash (by decide) (by decide) ds),
        or_iff_right (not_prefix_hash (by decide) (by decide) ds),
        or_iff_right (not_prefix_hash (by decide) (by decide) ds),
        or_iff_right (not_prefix_hash (by decide) (by decide) ds),
        or_iff_right (not_prefix_hash (by decide) (by decide) ds)]
      have hex : (∃ ds', ch '#' :: ds = ch '#' :: ds' ∧ (ch '#' :: ds).length ≤ 8 ∧
          if ds'.headD 0 = ch 'x' ∨ ds'.headD 0 = ch 'X' then LooseNumber 16 ds'.tail
          else LooseNumber 10 ds') ↔ ds.length + 1 ≤ 8 ∧
          if ds.headD 0 = ch 'x' ∨ ds.headD 0 = ch 'X' then LooseNumber 16 ds.tail
          else LooseNumber 10 ds := by
        constructor
        · rintro ⟨_, ⟨⟩, h⟩
          exact h
        · exact fun h => ⟨ds, rfl, h⟩
      rw [hex]
      by_cases hlong : 8 < ds.length + 1
      · rw [if_pos hlong]
        exact iff_of_false Bool.noConfusion fun h => by omega
      rw [if_neg hlong, and_iff_right (by omega)]
      split
      · exact numberRef_isSome 16 ds.tail
      · exact numberRef_isSome 10 ds
    · have hnot : ¬ ∃ ds', a :: ds = ch '#' :: ds' ∧ (a :: ds).length ≤ 8 ∧
          if ds'.headD 0 = ch 'x' ∨ ds'.headD 0 = ch 'X' then LooseNumber 16 ds'.tail
          else LooseNumber 10 ds' := by
        rintro ⟨ds', h, -⟩
        exact hhash (List.cons.inj h).1
      rw [codeRef, if_neg (cons_ne_nil a ds), entityBytes, Loose, or_iff_left hnot]
      simp only [headD_cons, if_neg hhash]
      split_ifs <;> simp [*]

theorem unescapePieces_eq_none (done : List UInt8) (ps : List Piece) :
    unescapePieces done ps = .ok none ↔ Refused ps := by
  induction ps generalizing done with
  | nil => exact iff_of_false nofun id
  | cons p ps ih =>
    cases p with
    | byte c => exact ih (done ++ [c])
    | ref name =>
      have hsome := codeRef_isSome name
      rw [unescapePieces, Refused]
      cases hcode : codeRef name with
      | none =>
        rw [hcode] at hsome
        exact iff_of_true rfl (.inl fun h => Bool.noConfusion (hsome.mpr h))
      | some bytes =>
        rw [hcode] at hsome
        rw [or_iff_right (not_not.mpr (hsome.mp rfl))]
        dsimp only
        by_cases hshort : name.length + 2 < 2 ^ 31
        · rw [if_pos hshort, and_iff_right hshort]
          exact ih (done ++ bytes)
        · rw [if_neg hshort]
          exact iff_of_false (fun h => by cases h) fun h => hshort h.1
    | unended s =>
      rw [unescapePieces, Refused]
      split
      · rename_i h
        exact iff_of_false nofun (not_not.mpr h)
      · rename_i h
        exact iff_of_true rfl h

theorem unescapePieces_plain (hn : s.length ≤ n) (h : ∀ p ∈ cutLoop n s, p.Plain) :
    ∃ r, Expands s r ∧ ∀ done, unescapePieces done (cutLoop n s) = .ok (some (done ++ r)) := by
  induction n generalizing s with
  | zero =>
    obtain rfl := length_eq_zero_iff.mp (Nat.le_zero.mp hn)
    exact ⟨[], .nil, fun done => by rw [append_nil]; rfl⟩
  | succ n ih =>
    cases s with
    | nil => exact ⟨[], .nil, fun done => by rw [append_nil]; rfl⟩
    | cons c s =>
      rw [length_cons] at hn
      by_cases hc : c = ch '&'
      · subst hc
        rcases cutLoop_amp n s with ⟨name, rest, hname, rfl, hcut⟩ | ⟨hsemi, hcut⟩
        · rw [length_append, length_cons] at hn
          rw [hcut, forall_mem_cons] at h
          obtain ⟨⟨⟨d, href⟩, hshort⟩, hrest⟩ := h
          obtain ⟨r, hr, hcode⟩ := ih (by omega) hrest
          refine ⟨_, .reference href hr, fun done => ?_⟩
          rw [hcut, unescapePieces, codeRef_reference href, if_pos hshort]
          simp only [if_pos (show name.length + 2 < 2 ^ 31 by omega), hcode, utf8Bytes_char,
            append_assoc]
        · rw [hcut, forall_mem_singleton] at h
          exact h.elim
      · rw [cutLoop, if_pos hc, forall_mem_cons] at h
        obtain ⟨r, hr, hcode⟩ := ih (by omega) h.2
        refine ⟨_, .byte hc hr, fun done => ?_⟩
        rw [cutLoop, if_pos hc, unescapePieces, hcode, append_assoc]
        rfl

theorem Expands.of_amp {r : List UInt8} (h : Expands (ch '&' :: s) r) :
    ∃ name rest t, ∃ c : Char, s = name ++ ch ';' :: rest ∧ Reference name c.toNat ∧
      Expands rest t := by
  cases h with
  | byte plain => exact absurd rfl plain
  | reference ref rest => exact ⟨_, _, _, _, rfl, ref, rest⟩

theorem plain_of_expands {n : Nat} {s r done out : List UInt8} (hn : s.length ≤ n)
    (hcode : unescapePieces done (cutLoop n s) = .ok (some out)) (h : Expands s r) :
    ∀ p ∈ cutLoop n s, p.Plain := by
  induction n generalizing s r done with
  | zero => exact nofun
  | succ n ih =>
    cases s with
    | nil => exact nofun
    | cons c s =>
      rw [length_cons] at hn
      by_cases hc : c = ch '&'
      · subst hc
        obtain ⟨name', rest', t, d, rfl, href, ht⟩ := h.of_amp
        have hname' : ∀ c ∈ name', c ≠ ch ';' := fun c hc => (href.name_plain c hc).2
        rcases cutLoop_amp n (name' ++ ch ';' :: rest') with
          ⟨name, rest, hname, heq, hcut⟩ | ⟨hsemi, -⟩
        · obtain ⟨rfl, rfl⟩ := name_unique hname' hname heq
          rw [length_append, length_cons] at hn
          rw [hcut, unescapePieces, codeRef_reference href] at hcode
          by_cases hshort : name'.length ≤ 8
          · rw [if_pos hshort] at hcode
            simp only [if_pos (show name'.length + 2 < 2 ^ 31 by omega)] at hcode
            rw [hcut, forall_mem_cons]
            exact ⟨⟨⟨d, href⟩, hshort⟩, ih (by omega) hcode ht⟩
          · rw [if_neg hshort] at hcode
            cases hcode
        · exact absurd (mem_append_right _ mem_cons_self) hsemi
      · rw [cutLoop, if_pos hc] at hcode ⊢
        cases h with
        | byte plain rest => exact forall_mem_cons.mpr ⟨trivial, ih (by omega) hcode rest⟩
        | reference ref rest => exact absurd rfl hc

/-- **`unescape_entities` follows the grammar** exactly if every reference of the text is plain, or
if it refuses a text with an `&` that begins no reference. -/
theorem unescapeEntities_iff (s : List UInt8) :
    FollowsGrammar s ↔
      (∀ p ∈ cut s, p.Plain) ∨ Refused (cut s) ∧ ¬ Grammatical s := by
  rw [FollowsGrammar, unescapeEntities_cut]
  constructor
  · rintro ⟨o, ho, hsome, hexpands⟩
    cases o with
    | none =>
      exact .inr ⟨(unescapePieces_eq_none _ _).mp ho, fun h => Bool.noConfusion (hsome.mpr h)⟩
    | some r => exact .inl (plain_of_expands (Nat.le_refl _) ho (hexpands r rfl))
  · rintro (hplain | ⟨hrefused, hnot⟩)
    · obtain ⟨r, hr, hcode⟩ := unescapePieces_plain (Nat.le_refl _) hplain
      refine ⟨some r, hcode [], iff_of_true rfl ?_, ?_⟩
      · refine (grammatical_cut (Nat.le_refl _)).mpr fun p hp => ?_
        have hp := hplain p hp
        cases p with
        | byte c => trivial
        | ref name =>
          obtain ⟨⟨c, hc⟩, -⟩ := hp
          exact ⟨_, hc⟩
        | unended rest => exact hp
      · rintro _ ⟨⟩
        exact hr
    · exact ⟨none, (unescapePieces_eq_none _ _).mpr hrefused,
        iff_of_false Bool.noConfusion hnot, nofun⟩

theorem Reference.name_cases (h : Reference name v) :
    name ∈ [lit "amp", lit "lt", lit "gt", lit "quot", lit "apos"] ∨ name.headD 0 = ch '#' := by
  cases h with
  | amp => exact .inl (by decide)
  | lt => exact .inl (by decide)
  | gt => exact .inl (by decide)
  | quot => exact .inl (by decide)
  | apos => exact .inl (by decide)
  | decimal => exact .inr rfl
  | hex => exact .inr rfl

/-- A name with something behind it, which is no reference of the grammar, becomes an `&`; an `&` at
the end stays; and a number with zeros before it, which is one, is refused. -/
theorem entities_off_grammar :
    (unescapeEntities (lit "a &amped; b") = .ok (some (lit "a & b")) ∧
      ¬ Grammatical (lit "a &amped; b")) ∧
    (unescapeEntities (lit "a &") = .ok (some (lit "a &")) ∧ ¬ Grammatical (lit "a &")) ∧
    unescapeEntities (lit "&#00000065;") = .ok none ∧ Grammatical (lit "&#00000065;") := by
  refine ⟨⟨by decide, fun h => ?_⟩, ⟨by decide, fun h => ?_⟩, by decide, ?_⟩
  · have hpiece := (grammatical_cut (Nat.le_refl _)).mp h (.ref (lit "amped")) (by decide)
    obtain ⟨v, href⟩ := hpiece
    exact absurd href.name_cases (by decide)
  · exact (grammatical_cut (Nat.le_refl _)).mp h (.unended []) (by decide)
  · have hdigits : ∀ c ∈ lit "00000065", digitValue c < 10 := by decide
    have href : Reference (lit "#00000065") _ := .decimal hdigits (by decide) (by decide)
    have hnil : Grammatical [] := fun a b h => by simp at h
    have hname : ∀ c ∈ lit "#00000065", c ≠ ch ';' := by decide
    exact (grammatical_ref hname).mpr ⟨⟨_, href⟩, hnil⟩

end IDeviceStack.Libplist.Xplist
