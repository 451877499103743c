/-
# `Lib.Json` — reading a JSON text

The grammar of JSON as a reader of bytes.  Whoever writes a JSON text by pasting strings
together is right when this reader gives back what he meant.

* A text is read to the value it stands for; the members of an object stand in their order,
  with those that are named twice.
* A byte from 128 on stands for itself.  Whether these bytes are UTF-8 is a question about
  the strings, not about the text around them.
* `\u` escapes are UTF-16 code units: a pair of surrogates is one character, a single one
  is none.
-/
import Mathlib.Data.List.Basic
import Mathlib.Tactic.Common

namespace IDeviceStack.Lib

open List Option

inductive Json where
  | null
  | bool (b : Bool)
  /-- A number, as it is written. -/
  | num (written : List UInt8)
  | str (s : List UInt8)
  | arr (items : List Json)
  | obj (members : List (List UInt8 × Json))

namespace Json

def quote : UInt8 := 34
def backslash : UInt8 := 92
def comma : UInt8 := 44

/-- What is left behind the blanks. -/
def skipBlanks (u : List UInt8) : List UInt8 :=
  u.dropWhile fun c => c = 32 ∨ c = 9 ∨ c = 10 ∨ c = 13

/-! ## Strings -/

/-- A part of a string. -/
inductive Part where
  | byte (b : UInt8)
  /-- A UTF-16 code unit. -/
  | unit (n : Nat)

/-- The value of a hexadecimal digit. -/
def hexValue (c : UInt8) : Option Nat :=
  if 48 ≤ c ∧ c ≤ 57 then some (c.toNat - 48)
  else if 65 ≤ c ∧ c ≤ 70 then some (c.toNat - 55)
  else if 97 ≤ c ∧ c ≤ 102 then some (c.toNat - 87)
  else none

/-- What four hexadecimal digits stand for. -/
def codeUnit (a b c d : UInt8) : Option Nat := do
  let a ← hexValue a
  let b ← hexValue b
  let c ← hexValue c
  let d ← hexValue d
  pure (4096 * a + 256 * b + 16 * c + d)

/-- The escapes of one letter. -/
def shortEscape (e : UInt8) : Option UInt8 :=
  if e = quote ∨ e = backslash ∨ e = 47 then some e
  else if e = 98 then some 8
  else if e = 102 then some 12
  else if e = 110 then some 10
  else if e = 114 then some 13
  else if e = 116 then some 9
  else none

/-- The parts of a string up to its closing quote, and what stands behind it. -/
def parts : List UInt8 → Option (List Part × List UInt8)
  | [] => none
  | c :: u =>
    if c = quote then some ([], u)
    else if c < 32 then none
    else if c = backslash then
      match u with
      | [] => none
      | e :: u =>
        if e = 117 then
          match u with
          | a :: b :: c :: d :: u => do
              let n ← codeUnit a b c d
              let (ps, rest) ← parts u
              pure (.unit n :: ps, rest)
          | _ => none
        else do
          let b ← shortEscape e
          let (ps, rest) ← parts u
          pure (.byte b :: ps, rest)
    else do
      let (ps, rest) ← parts u
      pure (.byte c :: ps, rest)

/-- The UTF-8 of a character. -/
def utf8 (n : Nat) : List UInt8 := String.utf8EncodeChar (Char.ofNat n)

def isHighSurrogate (n : Nat) : Bool := 55296 ≤ n && n < 56320
def isLowSurrogate (n : Nat) : Bool := 56320 ≤ n && n < 57344

/-- The bytes that the parts of a string stand for. -/
def bytesOf : List Part → Option (List UInt8)
  | [] => some []
  | .byte b :: ps => (bytesOf ps).map (b :: ·)
  | .unit n :: ps =>
    if isHighSurrogate n then
      match ps with
      | .unit m :: ps =>
        if isLowSurrogate m then
          (bytesOf ps).map (utf8 (65536 + 1024 * (n - 55296) + (m - 56320)) ++ ·)
        else none
      | _ => none
    else if isLowSurrogate n then none
    else (bytesOf ps).map (utf8 n ++ ·)

/-- A string behind its opening quote. -/
def stringBody (u : List UInt8) : Option (List UInt8 × List UInt8) := do
  let (ps, rest) ← parts u
  let s ← bytesOf ps
  pure (s, rest)

/-! ## Numbers and names -/

def isDigit (c : UInt8) : Bool := 48 ≤ c && c ≤ 57

/-- One digit or more, and what stands behind them. -/
def digits (u : List UInt8) : Option (List UInt8 × List UInt8) :=
  if u.takeWhile isDigit = [] then none else some (u.takeWhile isDigit, u.dropWhile isDigit)

/-- The digits in front of the point: no `0` before another one. -/
def integer (u : List UInt8) : Option (List UInt8 × List UInt8) :=
  match u with
  | 48 :: u => some ([48], u)
  | u => digits u

def fraction : List UInt8 → Option (List UInt8 × List UInt8)
  | 46 :: u => (digits u).map fun d => (46 :: d.1, d.2)
  | u => some ([], u)

def sign : List UInt8 → List UInt8 × List UInt8
  | 43 :: u => ([43], u)
  | 45 :: u => ([45], u)
  | u => ([], u)

def exponent : List UInt8 → Option (List UInt8 × List UInt8)
  | c :: u =>
    if c = 101 ∨ c = 69 then
      (digits (sign u).2).map fun d => (c :: (sign u).1 ++ d.1, d.2)
    else some ([], c :: u)
  | [] => some ([], [])

def number (u : List UInt8) : Option (Json × List UInt8) := do
  let minus := if u.head? = some 45 then [45] else []
  let (whole, u) ← integer (u.drop minus.length)
  let (frac, u) ← fraction u
  let (exp, u) ← exponent u
  pure (.num (minus ++ whole ++ frac ++ exp), u)

/-- `null`, `true` and `false`. -/
def named (u : List UInt8) : Option (Json × List UInt8) :=
  match u with
  | 110 :: 117 :: 108 :: 108 :: u => some (.null, u)
  | 116 :: 114 :: 117 :: 101 :: u => some (.bool true, u)
  | 102 :: 97 :: 108 :: 115 :: 101 :: u => some (.bool false, u)
  | _ => none

/-! ## Values -/

/-- What a reader of a construct makes of a text: the construct, and what is left. -/
abbrev Reader (α : Type) := List UInt8 → Option (α × List UInt8)

/-- One item or more with commas between them, up to the closing bracket; at most `count`. -/
def itemsLoop {α : Type} (item : Reader α) (close : UInt8) : Nat → Reader (List α)
  | 0, _ => none
  | count + 1, u => do
      let (x, u) ← item u
      match skipBlanks u with
      | [] => none
      | c :: u =>
        if c = comma then (itemsLoop item close count u).map fun l => (x :: l.1, l.2)
        else if c = close then some ([x], u)
        else none

/-- The items behind an opening bracket. -/
def items {α : Type} (item : Reader α) (close : UInt8) : Reader (List α) := fun u =>
  match skipBlanks u with
  | [] => none
  | c :: rest => if c = close then some ([], rest) else itemsLoop item close u.length u

/-- A member of an object, whose value is read by `value`. -/
def member (value : Reader Json) : Reader (List UInt8 × Json) := fun u =>
  match skipBlanks u with
  | [] => none
  | c :: u =>
    if c = quote then do
      let (name, u) ← stringBody u
      match skipBlanks u with
      | [] => none
      | c :: u =>
        if c = 58 then (value u).map fun v => ((name, v.1), v.2) else none
    else none

/-- A value of at most `depth` levels. -/
def value : Nat → Reader Json
  | 0, _ => none
  | depth + 1, u =>
    match skipBlanks u with
    | [] => none
    | c :: u =>
      if c = quote then (stringBody u).map fun s => (.str s.1, s.2)
      else if c = 91 then (items (value depth) 93 u).map fun l => (.arr l.1, l.2)
      else if c = 123 then (items (member (value depth)) 125 u).map fun l => (.obj l.1, l.2)
      else if isDigit c || c = 45 then number (c :: u)
      else named (c :: u)

/-- The value of a JSON text.  A text has no more levels than bytes. -/
def parse (u : List UInt8) : Option Json :=
  match value (u.length + 1) u with
  | some (v, rest) => if skipBlanks rest = [] then some v else none
  | none => none

/-! ## What a string takes -/

/-- A byte that stands for itself in a string. -/
def isPlain (c : UInt8) : Bool := c ≠ quote && c ≠ backslash && 32 ≤ c

/-- A string that needs no escape. -/
def Plain (s : List UInt8) : Prop := ∀ c ∈ s, isPlain c = true

instance (s : List UInt8) : Decidable (Plain s) := inferInstanceAs (Decidable (∀ c ∈ s, _))

/-- What is written between two quotes is read as what is meant. -/
def Reads (written meant : List UInt8) : Prop :=
  ∀ t, stringBody (written ++ quote :: t) = some (meant, t)

/-- A control byte stands in front of the next quote, so that no string goes on there. -/
def Guarded (t : List UInt8) : Prop := ∃ a c b, t = a ++ c :: b ∧ quote ∉ a ∧ c < 32

@[simp] theorem plain_nil : Plain [] := by simp [Plain]

@[simp] theorem plain_cons (c : UInt8) (s : List UInt8) :
    Plain (c :: s) ↔ isPlain c = true ∧ Plain s := by
  simp [Plain]

@[simp] theorem plain_append (s t : List UInt8) : Plain (s ++ t) ↔ Plain s ∧ Plain t := by
  simp [Plain, or_imp, forall_and]

theorem isPlain_iff (c : UInt8) : isPlain c = true ↔ c ≠ quote ∧ c ≠ backslash ∧ ¬ c < 32 := by
  simp [isPlain, and_assoc]

theorem parts_quote (t : List UInt8) : parts (quote :: t) = some ([], t) := by
  rw [parts.eq_def]
  exact if_pos rfl

theorem parts_cons_plain {c : UInt8} (hc : isPlain c = true) (u : List UInt8) :
    parts (c :: u) = (parts u).map fun p => (.byte c :: p.1, p.2) := by
  obtain ⟨hq, hb, hctl⟩ := (isPlain_iff c).1 hc
  rw [parts.eq_def]
  simp only [if_neg hq, if_neg hctl, if_neg hb]
  cases parts u <;> rfl

theorem parts_short {e b : UInt8} (he : e ≠ 117) (hb : shortEscape e = some b) (u : List UInt8) :
    parts (backslash :: e :: u) = (parts u).map fun p => (.byte b :: p.1, p.2) := by
  rw [parts.eq_def]
  simp only [if_neg he, hb, bind, bind_some]
  cases parts u <;> rfl

theorem parts_unit {a b c d : UInt8} {n : Nat} (hn : codeUnit a b c d = some n) (u : List UInt8) :
    parts (backslash :: 117 :: a :: b :: c :: d :: u) =
      (parts u).map fun p => (.unit n :: p.1, p.2) := by
  rw [parts.eq_def]
  simp only [hn, bind, bind_some]
  cases parts u <;> rfl

theorem parts_plain {s : List UInt8} (hs : Plain s) (t : List UInt8) :
    parts (s ++ quote :: t) = some (s.map .byte, t) := by
  induction s with
  | nil => exact parts_quote t
  | cons c s ih =>
    obtain ⟨hc, hs⟩ := (plain_cons c s).1 hs
    rw [cons_append, parts_cons_plain hc, ih hs]
    rfl

theorem bytesOf_map_byte (s : List UInt8) : bytesOf (s.map .byte) = some s := by
  induction s with
  | nil => rfl
  | cons c s ih => simp only [map_cons, bytesOf, ih, map_some]

theorem Plain.reads {s : List UInt8} (hs : Plain s) : Reads s s := by
  intro t
  simp only [stringBody, parts_plain hs t, bind, bind_some, bytesOf_map_byte]
  rfl

/-- An upper bound for the bytes of a string: an escape with a code unit gives less than the six
bytes that it takes. -/
def spread : List Part → Nat
  | [] => 0
  | .byte _ :: ps => spread ps + 1
  | .unit _ :: ps => spread ps + 5

theorem utf8_length (n : Nat) : (utf8 n).length ≤ 4 := by
  rw [utf8, String.length_utf8EncodeChar]
  exact Char.utf8Size_le_four _

theorem bytesOf_length {ps : List Part} {s : List UInt8} (h : bytesOf ps = some s) :
    s.length ≤ spread ps := by
  fun_induction bytesOf ps generalizing s with
  | case1 => simp_all [spread]
  | case2 b ps ih =>
    obtain ⟨d, hd, rfl⟩ := map_eq_some_iff.1 h
    simpa [spread] using ih hd
  | case3 n hn m ps hm ih =>
    obtain ⟨d, hd, rfl⟩ := map_eq_some_iff.1 h
    have hlen := utf8_length (65536 + 1024 * (n - 55296) + (m - 56320))
    have := ih hd
    simp only [length_append, spread]
    omega
  | case4 | case5 | case6 => simp at h
  | case7 n ps hn hl ih =>
    obtain ⟨d, hd, rfl⟩ := map_eq_some_iff.1 h
    have hlen := utf8_length n
    have := ih hd
    simp only [length_append, spread]
    omega

theorem hexValue_not_control {c : UInt8} {n : Nat} (h : hexValue c = some n) : ¬ c < 32 := by
  intro hc
  have : ¬ 48 ≤ c ∧ ¬ 65 ≤ c ∧ ¬ 97 ≤ c := by
    simp only [UInt8.lt_iff_toNat_lt, UInt8.le_iff_toNat_le, UInt8.reduceToNat] at hc ⊢
    omega
  simp [hexValue, this] at h

theorem shortEscape_not_control {e b : UInt8} (h : shortEscape e = some b) : ¬ e < 32 := by
  intro he
  have hne : ∀ c : UInt8, 32 ≤ c → e ≠ c := by
    rintro c hc rfl
    simp only [UInt8.lt_iff_toNat_lt, UInt8.le_iff_toNat_le, UInt8.reduceToNat] at hc he
    omega
  have hq := hne quote (by decide)
  have hb := hne backslash (by decide)
  simp [shortEscape, hq, hb, hne 47 (by decide), hne 98 (by decide), hne 102 (by decide),
    hne 110 (by decide), hne 114 (by decide), hne 116 (by decide)] at h

theorem codeUnit_not_control {a b c d : UInt8} {n : Nat} (h : codeUnit a b c d = some n) :
    ¬ a < 32 ∧ ¬ b < 32 ∧ ¬ c < 32 ∧ ¬ d < 32 := by
  simp only [codeUnit, bind, bind_eq_some_iff] at h
  obtain ⟨_, ha, _, hb, _, hc, _, hd, _⟩ := h
  exact ⟨hexValue_not_control ha, hexValue_not_control hb, hexValue_not_control hc,
    hexValue_not_control hd⟩

/-- What a string takes of a text: no control byte, and no more bytes come out of it than went in;
as many only when there is no escape in it. -/
theorem parts_taken {u rest : List UInt8} {ps : List Part} (h : parts u = some (ps, rest)) :
    ∃ s, u = s ++ quote :: rest ∧ (∀ c ∈ s, ¬ c < 32) ∧ spread ps ≤ s.length ∧
      (spread ps = s.length → Plain s) := by
  fun_induction parts u generalizing ps rest with
  | case1 | case3 | case4 | case6 => cases h
  | case2 =>
    cases h
    exact ⟨[], rfl, by simp, Nat.le_refl 0, fun _ => plain_nil⟩
  | case5 a b c d u _ _ ih =>
    simp only [bind, bind_eq_some_iff] at h
    obtain ⟨n, hn, ⟨qs, r⟩, hq, h⟩ := h
    cases h
    obtain ⟨s, rfl, hctl, hle, -⟩ := ih hq
    obtain ⟨ha, hb, hc, hd⟩ := codeUnit_not_control hn
    refine ⟨backslash :: 117 :: a :: b :: c :: d :: s, rfl, ?_, ?_, ?_⟩
    · simp only [forall_mem_cons]
      exact ⟨by decide, by decide, ha, hb, hc, hd, hctl⟩
    · simp only [spread, length_cons]
      omega
    · simp only [spread, length_cons]
      omega
  | case7 e u _ _ _ ih =>
    simp only [bind, bind_eq_some_iff] at h
    obtain ⟨b, hb, ⟨qs, r⟩, hq, h⟩ := h
    cases h
    obtain ⟨s, rfl, hctl, hle, -⟩ := ih hq
    refine ⟨backslash :: e :: s, rfl, ?_, ?_, ?_⟩
    · simp only [forall_mem_cons]
      exact ⟨by decide, shortEscape_not_control hb, hctl⟩
    · simp only [spread, length_cons]
      omega
    · simp only [spread, length_cons]
      omega
  | case8 c u hq hctl hb ih =>
    simp only [bind, bind_eq_some_iff] at h
    obtain ⟨⟨qs, r⟩, hp, h⟩ := h
    cases h
    obtain ⟨s, rfl, hnone, hle, hplain⟩ := ih hp
    refine ⟨c :: s, rfl, forall_mem_cons.2 ⟨hctl, hnone⟩, ?_, ?_⟩
    · simpa [spread] using hle
    · intro heq
      rw [plain_cons]
      exact ⟨(isPlain_iff c).2 ⟨hq, hb, hctl⟩, hplain (by simpa [spread] using heq)⟩

/-- A string that goes on to a quote takes the control byte that guards it. -/
theorem Guarded.control_mem {t s rest : List UInt8} (ht : Guarded t)
    (h : t = s ++ quote :: rest) : ∃ c ∈ s, c < 32 := by
  obtain ⟨a, c, b, rfl, ha, hc⟩ := ht
  obtain ⟨more, hs, hmore⟩ | ⟨more, rfl, hmore⟩ := append_eq_append_iff.1 h
  · cases more with
    | nil =>
      obtain ⟨rfl, -⟩ := List.cons.inj hmore
      exact absurd hc (by decide)
    | cons d more =>
      obtain ⟨rfl, -⟩ := List.cons.inj hmore
      exact ⟨c, by simp [hs], hc⟩
  · cases more with
    | nil =>
      obtain ⟨rfl, -⟩ := List.cons.inj hmore
      exact absurd hc (by decide)
    | cons d more =>
      obtain ⟨rfl, -⟩ := List.cons.inj hmore
      exact absurd (by simp) ha

/-- A string that is read back as it is written, and is followed by something that no string goes
on with, has no escape in it and ends where it should. -/
theorem plain_of_stringBody {s t rest : List UInt8} (ht : Guarded t)
    (h : stringBody (s ++ quote :: t) = some (s, rest)) : Plain s ∧ rest = t := by
  simp only [stringBody, bind, bind_eq_some_iff] at h
  obtain ⟨⟨ps, r⟩, hps, d, hd, h⟩ := h
  obtain ⟨rfl, rfl⟩ : d = s ∧ r = rest := by simpa using h
  obtain ⟨taken, htext, hctl, hle, hplain⟩ := parts_taken hps
  have hlen : d.length ≤ spread ps := bytesOf_length hd
  obtain ⟨more, rfl, hmore⟩ | ⟨more, rfl, hmore⟩ := append_eq_append_iff.1 htext
  · cases more with
    | nil =>
      obtain ⟨-, rfl⟩ := List.cons.inj hmore
      rw [append_nil] at hle hplain
      exact ⟨hplain (Nat.le_antisymm hle hlen), rfl⟩
    | cons c more =>
      -- the string goes on behind the quote, over the control byte
      obtain ⟨c, hc, hlow⟩ := ht.control_mem (List.cons.inj hmore).2
      exact absurd hlow (hctl c (by simp [hc]))
  · have hnil : more = [] := by
      rw [← length_eq_zero_iff]
      simp only [length_append] at hlen hle
      omega
    subst hnil
    obtain ⟨-, rfl⟩ := List.cons.inj hmore
    rw [append_nil] at hlen ⊢
    exact ⟨hplain (Nat.le_antisymm hle hlen), rfl⟩

/-- What is written is read as what is meant, or as something else that shows. -/
def Exact (written meant : List UInt8) : Prop :=
  ∀ t rest, Guarded t → stringBody (written ++ quote :: t) = some (meant, rest) →
    Reads written meant ∧ rest = t

theorem plain_exact (s : List UInt8) : Exact s s := by
  intro t rest ht h
  obtain ⟨hs, hrest⟩ := plain_of_stringBody ht h
  exact ⟨hs.reads, hrest⟩

theorem reads_self_iff (s : List UInt8) : Reads s s ↔ Plain s := by
  refine ⟨fun h => ?_, Plain.reads⟩
  exact (plain_of_stringBody ⟨[], 10, [], rfl, by simp, by decide⟩ (h [10])).1

/-- What can be read whatever follows is read as one thing only. -/
theorem Reads.exact {written meant : List UInt8} (h : Reads written meant) (other : List UInt8) :
    Exact written other := by
  intro t rest _ hother
  obtain ⟨rfl, rfl⟩ : meant = other ∧ t = rest := by simpa [h t] using hother
  exact ⟨h, rfl⟩

theorem Reads.unique {written meant other : List UInt8} (h : Reads written meant)
    (h' : Reads written other) : meant = other := by
  have hsame := (h []).symm.trans (h' [])
  simpa using hsame

/-! ## Items between commas -/

section Items

variable {α ι : Type} {item : Reader α} {close : UInt8}

theorem itemsLoop_cons {count : Nat} {u rest : List UInt8} {x : α} {xs : List α} :
    itemsLoop item close (count + 1) u = some (x :: xs, rest) ↔
      ∃ u', item u = some (x, u') ∧
        ((∃ w, skipBlanks u' = comma :: w ∧ itemsLoop item close count w = some (xs, rest)) ∨
          (skipBlanks u' = close :: rest ∧ close ≠ comma ∧ xs = [])) := by
  simp only [itemsLoop, bind, bind_eq_some_iff, Prod.exists]
  constructor
  · rintro ⟨y, u', hy, h⟩
    split at h
    · cases h
    · rename_i c w hw
      split at h
      · rename_i hc
        obtain ⟨⟨ys, r⟩, hys, h⟩ := map_eq_some_iff.1 h
        cases h
        exact ⟨u', hy, .inl ⟨w, hc ▸ hw, hys⟩⟩
      · rename_i hc
        split at h
        · rename_i hcl
          cases h
          exact ⟨u', hy, .inr ⟨hcl ▸ hw, hcl ▸ hc, rfl⟩⟩
        · cases h
  · rintro ⟨u', hy, ⟨w, hw, hxs⟩ | ⟨hw, hne, rfl⟩⟩
    · refine ⟨x, u', hy, ?_⟩
      simp only [hw, if_pos, hxs, map_some]
    · refine ⟨x, u', hy, ?_⟩
      simp only [hw, if_neg hne, if_pos]

/-- Items are read back if each is, whatever of what may follow follows it. -/
theorem itemsLoop_iff {text : ι → List UInt8} {val : ι → α} {P : ι → Prop}
    {Next : List UInt8 → Prop} {last : List UInt8} (hclose : close ≠ comma)
    (hlast : ∀ t, Next (last ++ close :: t) ∧ skipBlanks (last ++ close :: t) = close :: t)
    (t rest : List UInt8) (i : ι) (l : List ι) (count : Nat) (hcount : l.length < count)
    (hitem : ∀ j ∈ i :: l, ∀ t rest, Next t →
      (item (text j ++ t) = some (val j, rest) ↔ P j ∧ rest = t))
    (hnext : ∀ j ∈ l, ∀ t, Next (comma :: (text j ++ t))) :
    itemsLoop item close count
        (text i ++ (l.flatMap (fun j => comma :: text j) ++ (last ++ close :: t))) =
        some ((i :: l).map val, rest) ↔
      (∀ j ∈ i :: l, P j) ∧ rest = t := by
  induction l generalizing i count with
  | nil =>
    obtain ⟨count, rfl⟩ : ∃ n, count = n + 1 := ⟨count - 1, by simp at hcount; omega⟩
    rw [map_singleton, flatMap_nil, nil_append, itemsLoop_cons]
    simp only [hitem i (by simp) _ _ (hlast t).1, forall_mem_singleton]
    constructor
    · rintro ⟨u', ⟨hP, rfl⟩, ⟨w, hw, -⟩ | ⟨hw, -⟩⟩
      · exact absurd (List.cons.inj ((hlast t).2.symm.trans hw)).1 hclose
      · exact ⟨hP, (List.cons.inj (hw.symm.trans (hlast t).2)).2⟩
    · rintro ⟨hP, rfl⟩
      exact ⟨_, ⟨hP, rfl⟩, .inr ⟨(hlast _).2, hclose, trivial⟩⟩
  | cons j l ih =>
    obtain ⟨count, rfl⟩ : ∃ n, count = n + 1 := ⟨count - 1, by simp at hcount; omega⟩
    have hrec := ih j count (by simpa using hcount) (fun k hk => hitem k (by simp_all))
      (fun k hk => hnext k (by simp [hk]))
    rw [map_cons, flatMap_cons, itemsLoop_cons]
    simp only [cons_append, append_assoc,
      hitem i (by simp) _ _ (hnext j (by simp) _), forall_mem_cons (a := i)]
    constructor
    · rintro ⟨u', ⟨hP, rfl⟩, ⟨w, hw, hxs⟩ | ⟨hw, -⟩⟩
      · obtain rfl := (List.cons.inj hw).2
        obtain ⟨hall, hrest⟩ := hrec.1 hxs
        exact ⟨⟨hP, hall⟩, hrest⟩
      · exact absurd (List.cons.inj hw).1.symm hclose
    · rintro ⟨⟨hP, hall⟩, rfl⟩
      exact ⟨_, ⟨hP, rfl⟩, .inl ⟨_, rfl, hrec.2 ⟨hall, rfl⟩⟩⟩

theorem length_le_flatMap {ι : Type} (text : ι → List UInt8) (l : List ι) :
    l.length ≤ (l.flatMap fun j => comma :: text j).length := by
  induction l with
  | nil => simp
  | cons j l ih =>
    simp only [flatMap_cons, length_append, length_cons]
    omega

/-- The same behind an opening bracket, where the first item does not look like the closing one. -/
theorem items_iff {text : ι → List UInt8} {val : ι → α} {P : ι → Prop}
    {Next : List UInt8 → Prop} {last : List UInt8} (hclose : close ≠ comma)
    (hlast : ∀ t, Next (last ++ close :: t) ∧ skipBlanks (last ++ close :: t) = close :: t)
    (t rest : List UInt8) (i : ι) (l : List ι)
    (hfirst : ∀ t, ∃ c u, skipBlanks (text i ++ t) = c :: u ∧ c ≠ close)
    (hitem : ∀ j ∈ i :: l, ∀ t rest, Next t →
      (item (text j ++ t) = some (val j, rest) ↔ P j ∧ rest = t))
    (hnext : ∀ j ∈ l, ∀ t, Next (comma :: (text j ++ t))) :
    items item close (text i ++ (l.flatMap (fun j => comma :: text j) ++ (last ++ close :: t))) =
        some ((i :: l).map val, rest) ↔
      (∀ j ∈ i :: l, P j) ∧ rest = t := by
  obtain ⟨c, u, hu, hc⟩ := hfirst (l.flatMap (fun j => comma :: text j) ++ (last ++ close :: t))
  have hcount : l.length <
      (text i ++ (l.flatMap (fun j => comma :: text j) ++ (last ++ close :: t))).length := by
    have := length_le_flatMap text l
    simp only [length_append, length_cons]
    omega
  rw [← itemsLoop_iff hclose hlast t rest i l _ hcount hitem hnext]
  simp only [items, hu, if_neg hc]

end Items

/-! ## Objects of strings, and lists of them -/

/-- A member whose value is a string: what is written between the quotes, and what is meant. -/
structure Field where
  name : List UInt8
  written : List UInt8
  meant : List UInt8

namespace Field

def member (f : Field) : List UInt8 × Json := (f.name, .str f.meant)

/-- The member on a line of its own, some blanks to the right. -/
def text (indent : Nat) (f : Field) : List UInt8 :=
  10 :: (List.replicate indent 32 ++
    quote :: (f.name ++ quote :: 58 :: 32 :: quote :: (f.written ++ [quote])))

def Right (f : Field) : Prop := Reads f.written f.meant

/-- Its name is read back, and its value is or shows that it is not. -/
structure Sound (f : Field) : Prop where
  name : Plain f.name
  exact : Exact f.written f.meant

end Field

def objectText (indent : Nat) (f : Field) (fs : List Field) : List UInt8 :=
  123 :: (f.text indent ++ (fs.flatMap (fun g => comma :: g.text indent) ++ [10, 125]))

def arrayText (texts : List (List UInt8)) : List UInt8 :=
  match texts with
  | [] => [91, 93]
  | text :: texts => 91 :: (text ++ (texts.flatMap (fun t => comma :: t) ++ [93]))

theorem guarded_newline (u : List UInt8) : Guarded (10 :: u) :=
  ⟨[], 10, u, rfl, by simp, by decide⟩

theorem guarded_comma_newline (u : List UInt8) : Guarded (comma :: 10 :: u) :=
  ⟨[comma], 10, u, rfl, by decide, by decide⟩

theorem skipBlanks_indent (indent : Nat) (u : List UInt8) :
    skipBlanks (10 :: (List.replicate indent 32 ++ quote :: u)) = quote :: u := by
  induction indent with
  | zero => rfl
  | succ n ih => simpa [skipBlanks, replicate_succ] using ih

theorem skipBlanks_text (indent : Nat) (f : Field) (t : List UInt8) :
    ∃ u, skipBlanks (f.text indent ++ t) = quote :: u := by
  simp only [Field.text, cons_append, append_assoc, skipBlanks_indent]
  exact ⟨_, rfl⟩

theorem value_string (depth : Nat) (u : List UInt8) :
    value (depth + 1) (32 :: quote :: u) = (stringBody u).map fun s => (.str s.1, s.2) := rfl

theorem member_text {f : Field} (hf : f.Sound) (indent depth : Nat) (t : List UInt8) :
    Json.member (value (depth + 1)) (f.text indent ++ t) =
      (stringBody (f.written ++ quote :: t)).map fun s => ((f.name, .str s.1), s.2) := by
  have hname := hf.name.reads (58 :: 32 :: quote :: (f.written ++ quote :: t))
  have hcolon : ∀ u, skipBlanks (58 :: u) = 58 :: u := fun _ => rfl
  simp only [Field.text, cons_append, append_assoc, nil_append, Json.member,
    skipBlanks_indent, if_pos, hname, bind, Option.bind_some, hcolon, value_string, Option.map_map]
  rfl

theorem member_text_iff {f : Field} (hf : f.Sound) (indent depth : Nat) {t rest : List UInt8}
    (ht : Guarded t) :
    Json.member (value (depth + 1)) (f.text indent ++ t) = some (f.member, rest) ↔
      f.Right ∧ rest = t := by
  rw [member_text hf, map_eq_some_iff]
  constructor
  · rintro ⟨⟨s, r⟩, hs, h⟩
    obtain ⟨rfl, rfl⟩ : s = f.meant ∧ r = rest := by simpa [Field.member] using h
    exact hf.exact t r ht hs
  · rintro ⟨hright, rfl⟩
    exact ⟨(f.meant, rest), hright rest, rfl⟩

/-- An object is read back if all its members are. -/
theorem value_objectText_iff (indent depth : Nat) {f : Field} {fs : List Field}
    (hfs : ∀ g ∈ f :: fs, g.Sound) (t rest : List UInt8) :
    value (depth + 2) (objectText indent f fs ++ t) =
        some (.obj ((f :: fs).map Field.member), rest) ↔
      (∀ g ∈ f :: fs, g.Right) ∧ rest = t := by
  have hitems : items (Json.member (value (depth + 1))) 125
      (f.text indent ++
        (fs.flatMap (fun g => comma :: Field.text indent g) ++ ([10] ++ 125 :: t))) =
        some ((f :: fs).map Field.member, rest) ↔ (∀ g ∈ f :: fs, g.Right) ∧ rest = t :=
    items_iff (by decide) (fun t => ⟨guarded_newline (125 :: t), rfl⟩) t rest f fs
      (fun t => (skipBlanks_text indent f t).elim fun u hu => ⟨quote, u, hu, by decide⟩)
      (fun g hg t rest ht => member_text_iff (hfs g hg) indent depth ht)
      (fun g _ t => guarded_comma_newline _)
  rw [← hitems]
  have hopen : ∀ u, value (depth + 2) (123 :: u) =
      (items (Json.member (value (depth + 1))) 125 u).map fun l => (.obj l.1, l.2) := fun _ => rfl
  simp only [objectText, cons_append, append_assoc, hopen, map_eq_some_iff]
  constructor
  · rintro ⟨⟨ms, r⟩, hms, h⟩
    cases h
    exact hms
  · intro h
    exact ⟨_, h, rfl⟩

/-- The objects that are written, each with its first field apart. -/
abbrev Row := Field × List Field

namespace Row

def fields (row : Row) : List Field := row.1 :: row.2

def json (row : Row) : Json := .obj (row.fields.map Field.member)

def text (indent : Nat) (row : Row) : List UInt8 := objectText indent row.1 row.2

end Row

theorem value_rows_iff (indent depth : Nat) (row : Row) (rows : List Row)
    (hrows : ∀ r ∈ row :: rows, ∀ f ∈ r.fields, f.Sound) (rest : List UInt8) :
    value (depth + 3) (arrayText ((row :: rows).map (Row.text indent))) =
        some (.arr ((row :: rows).map Row.json), rest) ↔
      (∀ r ∈ row :: rows, ∀ f ∈ r.fields, f.Right) ∧ rest = [] := by
  have hitems : items (value (depth + 2)) 93
      (row.text indent ++
        (rows.flatMap (fun r => comma :: Row.text indent r) ++ ([] ++ 93 :: []))) =
        some ((row :: rows).map Row.json, rest) ↔
      (∀ r ∈ row :: rows, ∀ f ∈ r.fields, f.Right) ∧ rest = [] :=
    @items_iff _ _ _ _ _ _ _ (fun _ => True) [] (by decide) (fun t => ⟨trivial, rfl⟩) [] rest row
      rows (fun t => ⟨123, _, rfl, by decide⟩)
      (fun r hr t rest _ => value_objectText_iff indent depth (hrows r hr) t rest)
      (fun _ _ _ => trivial)
  rw [← hitems]
  have hopen : ∀ u, value (depth + 3) (91 :: u) =
      (items (value (depth + 2)) 93 u).map fun l => (.arr l.1, l.2) := fun _ => rfl
  simp only [arrayText, map_cons, hopen, flatMap_map, map_eq_some_iff, nil_append]
  constructor
  · rintro ⟨⟨vs, r⟩, hvs, h⟩
    cases h
    exact hvs
  · intro h
    exact ⟨_, h, rfl⟩

/-- **Lists of objects.** What is written as a list of objects is read back as these objects if and
only if every string in it is written as one that is read back. -/
theorem parse_arrayText_iff (indent : Nat) (rows : List Row)
    (hrows : ∀ row ∈ rows, ∀ f ∈ row.fields, f.Sound) :
    parse (arrayText (rows.map (Row.text indent))) = some (.arr (rows.map Row.json)) ↔
      ∀ row ∈ rows, ∀ f ∈ row.fields, f.Right := by
  cases rows with
  | nil => simp [arrayText, parse, value, skipBlanks, items, quote]
  | cons row rows =>
    have hvalue := value_rows_iff indent
      (arrayText ((row :: rows).map (Row.text indent))).length.pred.pred row rows hrows
    have hdepth : (arrayText ((row :: rows).map (Row.text indent))).length.pred.pred + 3 =
        (arrayText ((row :: rows).map (Row.text indent))).length + 1 := by
      simp only [arrayText, map_cons, length_cons, length_append, Nat.pred_eq_sub_one]
      omega
    rw [hdepth] at hvalue
    constructor
    · intro h
      simp only [parse] at h
      split at h
      · rename_i v rest hv
        obtain ⟨-, h⟩ : skipBlanks rest = [] ∧ v = _ := by simpa using h
        exact ((hvalue rest).1 (h ▸ hv)).1
      · cases h
    · intro h
      simp only [parse, (hvalue []).2 ⟨h, rfl⟩]
      rfl

end Json

end IDeviceStack.Lib
