/-
# `Libplist.Xplist.Scan` — moving through the text of an XML plist

`parse_skip_ws`, `find_char`, `find_str` and `find_next` of `xplist.c`.  The text is
the buffer from its first byte to `ctx->end`, and a position is the distance of
`ctx->pos` from the beginning; reading at or behind the end is a `fault`.  The
loops run with as many turns as the text has bytes, plus one, and a loop that
would need more stops with `fuel`.

Without quotes in play each function moves over the longest stretch of bytes of one
kind (`span`); with quotes it moves on, and not over the end.

`ctx->end - len` is compared as `pos + len` against the end: it is never below the
address 0.
-/
import IDeviceStack.Libplist.Data

namespace IDeviceStack.Libplist.Xplist

open List

/-- The bytes of a literal. -/
def lit (s : String) : List UInt8 := s.toList.map Char.toUInt8

/-- A character of the source. -/
abbrev ch (c : Char) : UInt8 := c.toUInt8

/-- The double quote. -/
abbrev quote : UInt8 := 34

/-- Why a function does not return. -/
inductive Stop where
  /-- A byte at or behind the end of the text was read. -/
  | fault (pos : Nat)
  /-- A `NULL` pointer was followed. -/
  | null
  /-- A length does not fit in the `int` it is kept in. -/
  | overflow
  /-- A loop did not come to its end. -/
  | fuel
  deriving DecidableEq, Repr

@[simp] theorem ok_bind {α β : Type} (a : α) (f : α → Except Stop β) :
    ((.ok a : Except Stop α) >>= f) = f a := rfl

@[simp] theorem error_bind {α β : Type} (e : Stop) (f : α → Except Stop β) :
    ((.error e : Except Stop α) >>= f) = .error e := rfl

/-- The byte at `pos`. -/
def byteAt (text : List UInt8) (pos : Nat) : Except Stop UInt8 :=
  match text[pos]? with
  | some c => .ok c
  | none => .error (.fault pos)

/-- `strncmp(pos, str, n) == 0`; bytes of `str` behind its end are 0. -/
def strncmp (text : List UInt8) : Nat → List UInt8 → Nat → Except Stop Bool
  | _, _, 0 => .ok true
  | pos, str, n + 1 => do
      let c ← byteAt text pos
      if c ≠ str.headD 0 then .ok false
      else if c = 0 then .ok true
      else strncmp text (pos + 1) str.tail n

/-! ## The loops -/

/-- The blanks of `parse_skip_ws`. -/
def isBlank (c : UInt8) : Bool := c = 32 ∨ c = 9 ∨ c = 13 ∨ c = 10

/-- The loop of `parse_skip_ws`. -/
def skipWsLoop (text : List UInt8) : Nat → Nat → Except Stop Nat
  | 0, _ => .error .fuel
  | fuel + 1, pos =>
    if pos < text.length then do
      let c ← byteAt text pos
      if isBlank c then skipWsLoop text fuel (pos + 1) else .ok pos
    else
      .ok pos

def parseSkipWs (text : List UInt8) (pos : Nat) : Except Stop Nat :=
  skipWsLoop text (text.length + 1) pos

/-- The loop of `find_char`. -/
def findCharLoop (text : List UInt8) : Nat → UInt8 → Bool → Nat → Except Stop Nat
  | 0, _, _, _ => .error .fuel
  | fuel + 1, c, skipQuotes, pos =>
    if pos < text.length then do
      let x ← byteAt text pos
      if x = c then .ok pos
      else if skipQuotes ∧ c ≠ quote ∧ x = quote then do
        let pos ← findCharLoop text fuel quote false (pos + 1)
        if pos ≥ text.length then .ok pos
        else do
          let y ← byteAt text pos
          if y ≠ quote then .ok pos else findCharLoop text fuel c skipQuotes (pos + 1)
      else findCharLoop text fuel c skipQuotes (pos + 1)
    else
      .ok pos

def findChar (text : List UInt8) (c : UInt8) (skipQuotes : Bool) (pos : Nat) : Except Stop Nat :=
  findCharLoop text (text.length + 1) c skipQuotes pos

/-- What `find_str` and `find_next` do at a quote: go to the closing one.  The search goes on from
there, if there is one. -/
def passQuoted (text : List UInt8) (skipQuotes : Bool) (pos : Nat) : Except Stop (Nat × Bool) := do
  let x ← byteAt text pos
  if skipQuotes ∧ x = quote then do
    let pos ← findChar text quote false (pos + 1)
    if pos ≥ text.length then .ok (pos, false)
    else do
      let y ← byteAt text pos
      if y ≠ quote then .ok (pos, false) else .ok (pos, true)
  else
    .ok (pos, true)

/-- The loop of `find_str`. -/
def findStrLoop (text : List UInt8) (str : List UInt8) (skipQuotes : Bool) :
    Nat → Nat → Except Stop Nat
  | 0, _ => .error .fuel
  | fuel + 1, pos =>
    if pos + str.length < text.length then do
      if ← strncmp text pos str str.length then .ok pos
      else do
        let (pos, found) ← passQuoted text skipQuotes pos
        if found then findStrLoop text str skipQuotes fuel (pos + 1) else .ok pos
    else
      .ok pos

def findStr (text : List UInt8) (str : List UInt8) (skipQuotes : Bool) (pos : Nat) :
    Except Stop Nat :=
  findStrLoop text str skipQuotes (text.length + 1) pos

/-- `find_str` and the test that every caller makes after it: is `str` really there? -/
def findEnd (text : List UInt8) (str : List UInt8) (skipQuotes : Bool) (pos : Nat) :
    Except Stop (Option Nat) := do
  let pos ← findStr text str skipQuotes pos
  if pos + str.length > text.length then .ok none
  else do
    if ← strncmp text pos str str.length then .ok (some pos) else .ok none

/-- The loop of `find_next`. -/
def findNextLoop (text : List UInt8) (nextchars : List UInt8) (skipQuotes : Bool) :
    Nat → Nat → Except Stop Nat
  | 0, _ => .error .fuel
  | fuel + 1, pos =>
    if pos < text.length then do
      let (pos, found) ← passQuoted text skipQuotes pos
      if found then do
        let x ← byteAt text pos
        if x ∈ nextchars then .ok pos else findNextLoop text nextchars skipQuotes fuel (pos + 1)
      else
        .ok pos
    else
      .ok pos

def findNext (text : List UInt8) (nextchars : List UInt8) (skipQuotes : Bool) (pos : Nat) :
    Except Stop Nat :=
  findNextLoop text nextchars skipQuotes (text.length + 1) pos

/-! ## Stretches of text -/

/-- How many bytes from `pos` on have `p`. -/
def span (text : List UInt8) (p : UInt8 → Bool) (pos : Nat) : Nat :=
  ((text.drop pos).takeWhile p).length

section Span

variable {text : List UInt8} {p : UInt8 → Bool} {pos : Nat}

theorem byteAt_eq (h : pos < text.length) : byteAt text pos = .ok (text[pos]) := by
  rw [byteAt, List.getElem?_eq_getElem h]

theorem byteAt_of_drop {c : UInt8} {s : List UInt8} (h : text.drop pos = c :: s) :
    byteAt text pos = .ok c := by
  have hget : text[pos]? = some c := by
    rw [← List.head?_drop, h, List.head?_cons]
  rw [byteAt, hget]

theorem drop_succ_of_drop {c : UInt8} {s : List UInt8} (h : text.drop pos = c :: s) :
    text.drop (pos + 1) = s := by
  rw [← drop_drop, h, drop_one, tail_cons]

theorem lt_length_of_drop {c : UInt8} {s : List UInt8} (h : text.drop pos = c :: s) :
    pos < text.length := by
  by_contra hge
  rw [drop_eq_nil_of_le (by omega)] at h
  cases h

theorem span_of_ge (h : text.length ≤ pos) : span text p pos = 0 := by
  rw [span, drop_eq_nil_of_le h]
  rfl

theorem span_of_neg (h : pos < text.length) (hp : ¬ p text[pos]) : span text p pos = 0 := by
  rw [span, drop_eq_getElem_cons h, takeWhile_cons_of_neg hp, length_nil]

theorem span_of_pos (h : pos < text.length) (hp : p text[pos]) :
    span text p pos = span text p (pos + 1) + 1 := by
  rw [span, drop_eq_getElem_cons h, takeWhile_cons_of_pos hp, length_cons, span]

theorem span_le (text : List UInt8) (p : UInt8 → Bool) (pos : Nat) :
    pos + span text p pos ≤ max pos text.length := by
  have hle := ( takeWhile_prefix p (l := text.drop pos)).length_le
  rw [length_drop] at hle
  rw [span]
  omega

theorem span_stop (text : List UInt8) (p : UInt8 → Bool) (pos : Nat) {c : UInt8}
    (h : text[pos + span text p pos]? = some c) : p c = false := by
  have hhead : ((text.drop pos).dropWhile p).head? = some c := by
    have hsplit : ((text.drop pos).takeWhile p ++ (text.drop pos).dropWhile p)[span text p pos]? =
        some c := by
      rw [takeWhile_append_dropWhile, List.getElem?_drop, h]
    rw [span, List.getElem?_append_right (Nat.le_refl _), Nat.sub_self] at hsplit
    rwa [List.head?_eq_getElem?]
  have hnot := List.head?_dropWhile_not p (text.drop pos)
  rw [hhead] at hnot
  exact hnot

theorem span_of_drop {a s : List UInt8} {c : UInt8} (h : text.drop pos = a ++ c :: s)
    (ha : ∀ x ∈ a, p x) (hc : ¬ p c) : span text p pos = a.length := by
  rw [span, h, takeWhile_append_of_pos ha, takeWhile_cons_of_neg hc, append_nil]

end Span

/-! ## What the loops do -/

section Loops

variable (text : List UInt8) {fuel pos : Nat}

theorem skipWsLoop_eq (hfuel : text.length - pos < fuel) :
    skipWsLoop text fuel pos = .ok (pos + span text isBlank pos) := by
  induction fuel generalizing pos with
  | zero => omega
  | succ fuel ih =>
    rw [skipWsLoop]
    by_cases hpos : pos < text.length
    · rw [if_pos hpos, byteAt_eq hpos, ok_bind]
      by_cases hblank : isBlank text[pos] = true
      · rw [if_pos hblank, ih (by omega), span_of_pos hpos hblank]
        congr 1
        omega
      · rw [if_neg hblank, span_of_neg hpos hblank, Nat.add_zero]
    · rw [if_neg hpos, span_of_ge (by omega), Nat.add_zero]

theorem parseSkipWs_eq (pos : Nat) :
    parseSkipWs text pos = .ok (pos + span text isBlank pos) := skipWsLoop_eq text (by omega)

theorem findCharLoop_eq (c : UInt8) (hfuel : text.length - pos < fuel) :
    findCharLoop text fuel c false pos = .ok (pos + span text (· ≠ c) pos) := by
  induction fuel generalizing pos with
  | zero => omega
  | succ fuel ih =>
    rw [findCharLoop]
    by_cases hpos : pos < text.length
    · rw [if_pos hpos, byteAt_eq hpos, ok_bind]
      by_cases hc : text[pos] = c
      · rw [if_pos hc, span_of_neg hpos (by simpa using hc), Nat.add_zero]
      · rw [if_neg hc, if_neg (by simp), ih (by omega), span_of_pos hpos (by simpa using hc)]
        congr 1
        omega
    · rw [if_neg hpos, span_of_ge (by omega), Nat.add_zero]

theorem findChar_eq (c : UInt8) (pos : Nat) :
    findChar text c false pos = .ok (pos + span text (· ≠ c) pos) := findCharLoop_eq text c (by omega)

theorem findCharLoop_spec (c : UInt8) (skipQuotes : Bool) (hpos : pos ≤ text.length)
    (hfuel : text.length - pos < fuel) :
    ∃ pos', findCharLoop text fuel c skipQuotes pos = .ok pos' ∧ pos ≤ pos' ∧
      pos' ≤ text.length := by
  induction fuel generalizing pos with
  | zero => omega
  | succ fuel ih =>
    rw [findCharLoop]
    split
    · rename_i hlt
      rw [byteAt_eq hlt, ok_bind]
      split
      · exact ⟨pos, rfl, Nat.le_refl _, hpos⟩
      · split
        · have hle := span_le text (· ≠ quote) (pos + 1)
          rw [findCharLoop_eq text quote (by omega), ok_bind]
          obtain ⟨q, hq⟩ : ∃ q, pos + 1 + span text (· ≠ quote) (pos + 1) = q := ⟨_, rfl⟩
          rw [hq] at hle ⊢
          split
          · exact ⟨q, rfl, by omega, by omega⟩
          · have hqlt : q < text.length := by omega
            rw [byteAt_eq hqlt, ok_bind]
            split
            · exact ⟨q, rfl, by omega, by omega⟩
            · obtain ⟨pos', hrun, hle', hend⟩ := ih (show q + 1 ≤ text.length by omega) (by omega)
              exact ⟨pos', hrun, by omega, hend⟩
        · obtain ⟨pos', hrun, hle, hend⟩ := ih (show pos + 1 ≤ text.length by omega) (by omega)
          exact ⟨pos', hrun, by omega, hend⟩
    · exact ⟨pos, rfl, Nat.le_refl _, hpos⟩

theorem findNextLoop_eq (nextchars : List UInt8) (hfuel : text.length - pos < fuel) :
    findNextLoop text nextchars false fuel pos = .ok (pos + span text (· ∉ nextchars) pos) := by
  induction fuel generalizing pos with
  | zero => omega
  | succ fuel ih =>
    rw [findNextLoop]
    by_cases hpos : pos < text.length
    · simp only [if_pos hpos, passQuoted, byteAt_eq hpos, ok_bind, Bool.false_eq_true, false_and,
        if_false, if_true]
      by_cases hc : text[pos] ∈ nextchars
      · rw [if_pos hc, span_of_neg hpos (by simpa using hc), Nat.add_zero]
      · rw [if_neg hc, ih (by omega), span_of_pos hpos (by simpa using hc)]
        congr 1
        omega
    · rw [if_neg hpos, span_of_ge (by omega), Nat.add_zero]

theorem findNext_eq (nextchars : List UInt8) (pos : Nat) :
    findNext text nextchars false pos = .ok (pos + span text (· ∉ nextchars) pos) :=
  findNextLoop_eq text nextchars (by omega)

theorem passQuoted_spec (skipQuotes : Bool) (hpos : pos < text.length) :
    ∃ pos' found, passQuoted text skipQuotes pos = .ok (pos', found) ∧ pos ≤ pos' ∧
      pos' ≤ text.length ∧ (found = true → pos' < text.length) ∧
      (found = false → pos' = text.length) := by
  rw [passQuoted, byteAt_eq hpos, ok_bind]
  split
  · have hle := span_le text (· ≠ quote) (pos + 1)
    rw [findChar_eq, ok_bind]
    obtain ⟨q, hq⟩ : ∃ q, pos + 1 + span text (· ≠ quote) (pos + 1) = q := ⟨_, rfl⟩
    rw [hq] at hle ⊢
    by_cases hend : q ≥ text.length
    · rw [if_pos hend]
      exact ⟨q, false, rfl, by omega, by omega, by simp, fun _ => by omega⟩
    · have hlt : q < text.length := by omega
      have hquote : text[q] = quote := by
        have hstop := span_stop text (· ≠ quote) (pos + 1) (c := text[q])
          (by rw [hq, List.getElem?_eq_getElem hlt])
        simpa using hstop
      rw [if_neg hend, byteAt_eq hlt, ok_bind, if_neg (by simpa using hquote)]
      exact ⟨q, true, rfl, by omega, by omega, fun _ => hlt, by simp⟩
  · exact ⟨pos, true, rfl, Nat.le_refl _, by omega, fun _ => hpos, by simp⟩

theorem findNextLoop_spec (nextchars : List UInt8) (skipQuotes : Bool) (hpos : pos ≤ text.length)
    (hfuel : text.length - pos < fuel) :
    ∃ pos', findNextLoop text nextchars skipQuotes fuel pos = .ok pos' ∧ pos ≤ pos' ∧
      pos' ≤ text.length ∧ ∀ c, text[pos']? = some c → c ∈ nextchars := by
  induction fuel generalizing pos with
  | zero => omega
  | succ fuel ih =>
    rw [findNextLoop]
    by_cases hlt : pos < text.length
    · obtain ⟨q, found, hq, hle, hend, htrue, hfalse⟩ := passQuoted_spec text skipQuotes hlt
      rw [if_pos hlt, hq, ok_bind]
      cases found with
      | false =>
        refine ⟨q, by simp, hle, hend, fun c hc => ?_⟩
        rw [List.getElem?_eq_none (by rw [hfalse rfl])] at hc
        cases hc
      | true =>
        have hqlt := htrue rfl
        simp only [if_true, byteAt_eq hqlt, ok_bind]
        by_cases hmem : text[q] ∈ nextchars
        · rw [if_pos hmem]
          refine ⟨q, rfl, hle, hend, fun c hc => ?_⟩
          rw [List.getElem?_eq_getElem hqlt] at hc
          exact Option.some.inj hc ▸ hmem
        · rw [if_neg hmem]
          obtain ⟨pos', hrun, hle', hrest⟩ := ih (show q + 1 ≤ text.length by omega) (by omega)
          exact ⟨pos', hrun, by omega, hrest⟩
    · rw [if_neg hlt]
      refine ⟨pos, rfl, Nat.le_refl _, hpos, fun c hc => ?_⟩
      rw [List.getElem?_eq_none (by omega)] at hc
      cases hc

theorem findNext_spec (nextchars : List UInt8) (skipQuotes : Bool) (hpos : pos ≤ text.length) :
    ∃ pos', findNext text nextchars skipQuotes pos = .ok pos' ∧ pos ≤ pos' ∧
      pos' ≤ text.length ∧ ∀ c, text[pos']? = some c → c ∈ nextchars :=
  findNextLoop_spec text nextchars skipQuotes hpos (by omega)

theorem strncmp_spec {n : Nat} (str : List UInt8) (h : pos + n ≤ text.length) :
    ∃ b, strncmp text pos str n = .ok b := by
  induction n generalizing pos str with
  | zero => exact ⟨true, rfl⟩
  | succ n ih =>
    rw [strncmp, byteAt_eq (by omega), ok_bind]
    split
    · exact ⟨false, rfl⟩
    · split
      · exact ⟨true, rfl⟩
      · exact ih str.tail (by omega)

theorem strncmp_eq {str : List UInt8} (hstr : NulFree str) (h : pos + str.length ≤ text.length) :
    strncmp text pos str str.length = .ok (decide (str <+: text.drop pos)) := by
  induction str generalizing pos with
  | nil => simp [strncmp]
  | cons c str ih =>
    rw [length_cons] at h
    have hlt : pos < text.length := by omega
    have hc : c ≠ 0 := hstr c mem_cons_self
    rw [length_cons, strncmp, byteAt_eq hlt, ok_bind, headD_cons, tail_cons,
      drop_eq_getElem_cons hlt]
    by_cases heq : text[pos] = c
    · rw [if_neg (by simpa using heq), if_neg (by rw [heq]; exact hc),
        ih (fun x hx => hstr x (mem_cons_of_mem c hx)) (by omega)]
      simp [heq]
    · have hnot : ¬ c :: str <+: text[pos] :: text.drop (pos + 1) := fun hp =>
        heq (cons_prefix_cons.mp hp).1.symm
      rw [if_pos heq, decide_eq_false hnot]

theorem findStrLoop_spec (str : List UInt8) (skipQuotes : Bool) (hpos : pos ≤ text.length)
    (hfuel : text.length - pos < fuel) :
    ∃ pos', findStrLoop text str skipQuotes fuel pos = .ok pos' ∧ pos ≤ pos' ∧
      pos' ≤ text.length := by
  induction fuel generalizing pos with
  | zero => omega
  | succ fuel ih =>
    rw [findStrLoop]
    split
    · rename_i hlt
      obtain ⟨b, hb⟩ := strncmp_spec text str (show pos + str.length ≤ text.length by omega)
      rw [hb, ok_bind]
      cases b with
      | true => exact ⟨pos, rfl, Nat.le_refl _, hpos⟩
      | false =>
        have hlt' : pos < text.length := by omega
        obtain ⟨q, found, hq, hle, hend, htrue, -⟩ := passQuoted_spec text skipQuotes hlt'
        simp only [Bool.false_eq_true, if_false, hq, ok_bind]
        cases found with
        | false => exact ⟨q, by simp, hle, hend⟩
        | true =>
          have hqlt := htrue rfl
          obtain ⟨pos', hrun, hle', hend'⟩ := ih (show q + 1 ≤ text.length by omega) (by omega)
          exact ⟨pos', by simpa using hrun, by omega, hend'⟩
    · exact ⟨pos, rfl, Nat.le_refl _, hpos⟩

theorem findEnd_spec (str : List UInt8) (skipQuotes : Bool) (hpos : pos ≤ text.length) :
    ∃ r, findEnd text str skipQuotes pos = .ok r ∧
      ∀ q, r = some q → pos ≤ q ∧ q + str.length ≤ text.length := by
  obtain ⟨q, hq, hle, hend⟩ :=
    findStrLoop_spec text str skipQuotes hpos (show text.length - pos < text.length + 1 by omega)
  rw [findEnd, findStr, hq, ok_bind]
  split
  · exact ⟨none, rfl, by simp⟩
  · obtain ⟨b, hb⟩ := strncmp_spec text str (show q + str.length ≤ text.length by omega)
    rw [hb, ok_bind]
    cases b with
    | true => exact ⟨some q, rfl, fun q' hq' => by cases hq'; omega⟩
    | false => exact ⟨none, rfl, by simp⟩

end Loops

end IDeviceStack.Libplist.Xplist
