/-
# `Libplist.Bplist.Conversion` — the conversions and their buffers

`plist_utf8_to_utf16` and `plist_utf16_to_utf8` with the buffer they write to.
`i` and the sizes are `long`s of `bits` bits, but `p`, which counts what has been
written, is an `int`.

* Signed arithmetic that leaves its range, and a write past the buffer, end the
  conversion without a result.  `malloc` grants what it is asked for.

**Proved here.**  `conversionRight_iff`.
-/
import IDeviceStack.Libplist.Bplist.Utf16

namespace IDeviceStack.Libplist.Bplist

open List

/-- `outbuf[p++] = …` for each of the elements; `out` has been written before. -/
def store {α : Type} (room : Nat) (out us : List α) : Option (List α) :=
  if out.length + us.length ≤ room ∧ out.length + us.length < 2 ^ 31 then some (out ++ us) else none

/-- By how much a turn of `plist_utf8_to_utf16` advances `i`; 0 if it breaks the loop. -/
def seqLength : List UInt8 → Nat
  | [] => 0
  | b :: bs =>
    let c0 := b.toNat
    let c1 := (bs.getD 0 0).toNat
    let c2 := (bs.getD 1 0).toNat
    let c3 := (bs.getD 2 0).toNat
    if c0 ≥ 0xF0 ∧ 3 ≤ bs.length ∧ c1 ≥ 0x80 ∧ c2 ≥ 0x80 ∧ c3 ≥ 0x80 then 4
    else if c0 ≥ 0xE0 ∧ 2 ≤ bs.length ∧ c1 ≥ 0x80 ∧ c2 ≥ 0x80 then 3
    else if c0 ≥ 0xC0 ∧ 1 ≤ bs.length ∧ c1 ≥ 0x80 then 2
    else if c0 < 0x80 then 1
    else 0

/-- The loop of `plist_utf8_to_utf16`; one turn writes what `utf8Loop` says of one turn. -/
def utf8Run (room : Nat) (unistr : List UInt8) (i : Nat) (out : List Nat) :
    Option (Nat × List Nat) :=
  if i < unistr.length then
    if seqLength (unistr.drop i) = 0 then some (i, out)
    else
      match store room out (utf8Loop 1 (unistr.drop i)) with
      | none => none
      | some out => utf8Run room unistr (i + seqLength (unistr.drop i)) out
  else some (i, out)
termination_by unistr.length - i

/-- `plist_utf8_to_utf16`, with `items_read`.  The last write is the 0 at the end. -/
def plistUtf8ToUtf16 (bits : Nat) (unistr : List UInt8) : Option (Nat × List Nat) :=
  let room := unistr.length * 2 + 1
  if room < 2 ^ (bits - 1) then
    match utf8Run room unistr 0 [] with
    | none => none
    | some (i, out) => if out.length < room then some (i, out) else none
  else none

/-- What a code unit leaves in `read_lead_surrogate` and `w`. -/
def nextLead (wc : Nat) (lead : Option Nat) : Option Nat :=
  if 0xD800 ≤ wc ∧ wc ≤ 0xDBFF then
    match lead with
    | none => some (0x010000 + (wc &&& 0x3FF) <<< 10)
    | some _ => none
  else if 0xDC00 ≤ wc ∧ wc ≤ 0xDFFF then none
  else lead

/-- The loop of `plist_utf16_to_utf8`; one turn writes what `utf16Loop` says of one code unit. -/
def utf16Run (room : Nat) : List Nat → Option Nat → List UInt8 → Option (List UInt8)
  | [], _, out => some out
  | wc :: us, lead, out =>
    match store room out (utf16Loop [wc] lead) with
    | none => none
    | some out => utf16Run room us (nextLead wc lead) out

/-- `plist_utf16_to_utf8`, with `items_read`; it returns `NULL` for no code unit. -/
def plistUtf16ToUtf8 (bits : Nat) (unistr : List Nat) : Option (Option (Nat × List UInt8)) :=
  if unistr = [] then some none
  else
    let room := 4 * (unistr.length + 1)
    if room < 2 ^ (bits - 1) then
      match utf16Run room unistr none [] with
      | none => none
      | some out => if out.length < room then some (some (unistr.length, out)) else none
    else none

/-! ## What is written -/

/-- The code units that the sequences of the string amount to, up to an invalid one. -/
def unitCount : Nat → List UInt8 → Nat
  | 0, _ => 0
  | n + 1, bs =>
    if seqLength bs = 0 then 0
    else (if seqLength bs = 4 then 2 else 1) + unitCount n (bs.drop (seqLength bs))

/-- The bytes that the code units amount to; `pending` after a lead surrogate. -/
def utf8Count : List Nat → Bool → Nat
  | [], _ => 0
  | wc :: us, pending =>
    if 0xD800 ≤ wc ∧ wc ≤ 0xDBFF then utf8Count us !pending
    else if 0xDC00 ≤ wc ∧ wc ≤ 0xDFFF then (if pending then 4 else 0) + utf8Count us false
    else (if 0x800 ≤ wc then 3 else if 0x80 ≤ wc then 2 else 1) + utf8Count us pending

theorem store_some {α : Type} {room : Nat} {out us out' : List α}
    (h : store room out us = some out') :
    out' = out ++ us ∧ out'.length ≤ room ∧ out'.length < 2 ^ 31 := by
  rw [store] at h
  split at h
  · next hfits =>
    cases h
    rw [length_append]
    exact ⟨rfl, hfits⟩
  · cases h

theorem store_nil {α : Type} {room : Nat} {out : List α} (hroom : out.length ≤ room)
    (hint : out.length < 2 ^ 31) : store room out [] = some out := by
  rw [store, if_pos ⟨hroom, hint⟩, append_nil]

theorem store_append {α : Type} (room : Nat) (out us vs : List α) :
    store room out (us ++ vs) = (store room out us).bind (store room · vs) := by
  simp only [store, length_append]
  by_cases hfits : out.length + us.length ≤ room ∧ out.length + us.length < 2 ^ 31
  · rw [if_pos hfits, Option.bind_some, length_append, append_assoc]
    simp only [Nat.add_assoc]
  · rw [if_neg hfits, if_neg (by omega), Option.bind_none]

theorem seqLength_le (bs : List UInt8) : seqLength bs ≤ bs.length := by
  cases bs with
  | nil => exact Nat.le_refl 0
  | cons b bs =>
    rw [length_cons]
    simp only [seqLength]
    split_ifs <;> omega

theorem utf8Loop_turn (n : Nat) (bs : List UInt8) :
    (seqLength bs = 0 → utf8Loop (n + 1) bs = []) ∧
    (seqLength bs ≠ 0 →
      (utf8Loop 1 bs).length = (if seqLength bs = 4 then 2 else 1) ∧
      utf8Loop (n + 1) bs = utf8Loop 1 bs ++ utf8Loop n (bs.drop (seqLength bs))) := by
  cases bs with
  | nil => exact ⟨fun _ => rfl, fun h => absurd rfl h⟩
  | cons b bs =>
    simp only [seqLength, utf8Loop]
    split_ifs <;> simp_all

theorem length_utf8Loop (n : Nat) (bs : List UInt8) : (utf8Loop n bs).length = unitCount n bs := by
  induction n generalizing bs with
  | zero => rw [utf8Loop, unitCount, length_nil]
  | succ n ih =>
    obtain ⟨hstop, hturn⟩ := utf8Loop_turn n bs
    rw [unitCount]
    split
    · next h0 => rw [hstop h0, length_nil]
    · next h0 =>
      obtain ⟨hlen, happ⟩ := hturn h0
      rw [happ, length_append, hlen, ih]

theorem unitCount_le (n : Nat) (bs : List UInt8) : unitCount n bs ≤ bs.length := by
  induction n generalizing bs with
  | zero => exact Nat.zero_le _
  | succ n ih =>
    have hle := seqLength_le bs
    have hrest := ih (bs.drop (seqLength bs))
    rw [length_drop] at hrest
    rw [unitCount]
    split_ifs <;> omega

theorem utf8Run_eq {room : Nat} {unistr : List UInt8} (n : Nat) {i : Nat} {out : List Nat}
    (hn : unistr.length ≤ i + n) (hroom : out.length ≤ room) (hint : out.length < 2 ^ 31) :
    (utf8Run room unistr i out).map Prod.snd = store room out (utf8Loop n (unistr.drop i)) := by
  induction n generalizing i out with
  | zero =>
    rw [utf8Run, if_neg (by omega), utf8Loop, store_nil hroom hint]
    rfl
  | succ n ih =>
    obtain ⟨hstop, hturn⟩ := utf8Loop_turn n (unistr.drop i)
    rw [utf8Run]
    by_cases hi : i < unistr.length
    · rw [if_pos hi]
      by_cases h0 : seqLength (unistr.drop i) = 0
      · rw [if_pos h0, hstop h0, store_nil hroom hint]
        rfl
      · rw [if_neg h0, (hturn h0).2, store_append]
        cases hstore : store room out (utf8Loop 1 (unistr.drop i)) with
        | none => rfl
        | some out' =>
          obtain ⟨-, hroom', hint'⟩ := store_some hstore
          rw [Option.bind_some, drop_drop]
          exact ih (by omega) hroom' hint'
    · rw [if_neg hi, drop_eq_nil_of_le (by omega), utf8Loop, store_nil hroom hint]
      rfl

theorem utf16Loop_turn (wc : Nat) (us : List Nat) (lead : Option Nat) :
    utf16Loop (wc :: us) lead = utf16Loop [wc] lead ++ utf16Loop us (nextLead wc lead) := by
  cases lead with
  | none =>
    simp only [utf16Loop, nextLead]
    split_ifs <;> simp
  | some w =>
    simp only [utf16Loop, nextLead]
    split_ifs <;> simp

theorem length_utf16Loop (us : List Nat) (lead : Option Nat) :
    (utf16Loop us lead).length = utf8Count us lead.isSome := by
  induction us generalizing lead with
  | nil => rfl
  | cons wc us ih =>
    cases lead with
    | none =>
      rw [utf16Loop_turn, length_append, ih]
      simp only [utf16Loop, nextLead, utf8Count]
      split_ifs <;> simp_all
    | some w =>
      rw [utf16Loop_turn, length_append, ih]
      simp only [utf16Loop, nextLead, utf8Count]
      split_ifs <;> simp_all

theorem utf8Count_le (us : List Nat) (pending : Bool) : utf8Count us pending ≤ 4 * us.length := by
  induction us generalizing pending with
  | nil => exact Nat.zero_le _
  | cons wc us ih =>
    have h1 := ih pending
    have h2 := ih false
    have h3 := ih !pending
    rw [utf8Count, length_cons]
    split_ifs <;> omega

theorem utf8Run_start (room : Nat) (s : List UInt8) :
    (utf8Run room s 0 []).map Prod.snd = store room [] (utf8Loop s.length s) :=
  utf8Run_eq s.length (by omega) (Nat.zero_le room) (by decide)

theorem utf16Run_eq {room : Nat} {us : List Nat} {lead : Option Nat} {out : List UInt8}
    (hroom : out.length ≤ room) (hint : out.length < 2 ^ 31) :
    utf16Run room us lead out = store room out (utf16Loop us lead) := by
  induction us generalizing lead out with
  | nil => rw [utf16Run, utf16Loop, store_nil hroom hint]
  | cons wc us ih =>
    rw [utf16Run, utf16Loop_turn wc us, store_append]
    cases hstore : store room out (utf16Loop [wc] lead) with
    | none => rfl
    | some out' =>
      obtain ⟨-, hroom', hint'⟩ := store_some hstore
      exact ih hroom' hint'

/-! ## Characters -/

theorem seqLength_char (c : Char) (bs : List UInt8) :
    seqLength (String.utf8EncodeChar c ++ bs) = (String.utf8EncodeChar c).length := by
  have hrange := char_range c
  obtain ⟨v, hv⟩ : ∃ v, c.val.toNat = v := ⟨_, rfl⟩
  have hbyte {x : Nat} (hx : x < 256) : (UInt8.ofNat x).toNat = x := toNat_ofNat_of_lt hx
  simp only [String.utf8EncodeChar, hv] at hrange ⊢
  by_cases h1 : v ≤ 0x7f
  · rw [if_pos h1]
    simp only [seqLength, cons_append, nil_append, hbyte (x := v) (by omega)]
    rw [if_neg (by omega), if_neg (by omega), if_neg (by omega), if_pos (by omega)]
    rfl
  rw [if_neg h1]
  by_cases h2 : v ≤ 0x7ff
  · rw [if_pos h2]
    simp only [seqLength, cons_append, nil_append, getD_cons_zero,
      hbyte (x := v / 64 % 0x20 + 0xc0) (by omega), hbyte (x := v % 0x40 + 0x80) (by omega)]
    rw [if_neg (by omega), if_neg (by omega), if_pos ⟨by omega, by simp, by omega⟩]
    rfl
  rw [if_neg h2]
  by_cases h3 : v ≤ 0xffff
  · rw [if_pos h3]
    simp only [seqLength, cons_append, nil_append, getD_cons_zero,
      getD_cons_succ, hbyte (x := v / 4096 % 0x10 + 0xe0) (by omega),
      hbyte (x := v / 64 % 0x40 + 0x80) (by omega), hbyte (x := v % 0x40 + 0x80) (by omega)]
    rw [if_neg (by omega), if_pos ⟨by omega, by simp, by omega, by omega⟩]
    rfl
  · rw [if_neg h3]
    simp only [seqLength, cons_append, nil_append, getD_cons_zero,
      getD_cons_succ, hbyte (x := v / 262144 % 0x08 + 0xf0) (by omega),
      hbyte (x := v / 4096 % 0x40 + 0x80) (by omega),
      hbyte (x := v / 64 % 0x40 + 0x80) (by omega), hbyte (x := v % 0x40 + 0x80) (by omega)]
    rw [if_pos ⟨by omega, by simp, by omega, by omega, by omega⟩]
    rfl

theorem utf8Run_read {room : Nat} {cs : List Char} (pre : List UInt8) {out : List Nat}
    {r : Nat × List Nat}
    (h : utf8Run room (pre ++ cs.flatMap String.utf8EncodeChar) pre.length out = some r) :
    r.1 = (pre ++ cs.flatMap String.utf8EncodeChar).length := by
  induction cs generalizing pre out with
  | nil =>
    rw [utf8Run, if_neg (by simp)] at h
    cases h
    simp
  | cons c cs ih =>
    have hpos := length_utf8EncodeChar_pos c
    have hlen := seqLength_char c (cs.flatMap String.utf8EncodeChar)
    rw [utf8Run, drop_left, flatMap_cons, hlen,
      if_pos (by simp only [length_append]; omega), if_neg (by omega)] at h
    split at h
    · cases h
    · rw [← append_assoc, ← length_append] at h
      rw [flatMap_cons, ← append_assoc]
      exact ih _ h

/-! ## When the conversions are right -/

/-- The sizes fit a `long`, and `p` an `int`. -/
abbrev Utf8Fits (bits : Nat) (s : List UInt8) : Prop :=
  s.length * 2 + 1 < 2 ^ (bits - 1) ∧ unitCount s.length s < 2 ^ 31

abbrev Utf16Fits (bits : Nat) (us : List Nat) : Prop :=
  4 * (us.length + 1) < 2 ^ (bits - 1) ∧ utf8Count us false < 2 ^ 31

theorem plistUtf8ToUtf16_eq {bits : Nat} {s : List UInt8} (h : Utf8Fits bits s) :
    ∃ i, plistUtf8ToUtf16 bits s = some (i, utf8ToUtf16 s) ∧
      ∀ cs : List Char, s = cs.flatMap String.utf8EncodeChar → i = s.length := by
  have hle := unitCount_le s.length s
  have hlen := length_utf8Loop s.length s
  have hrun := utf8Run_start (s.length * 2 + 1) s
  rw [store, length_nil, Nat.zero_add, nil_append, if_pos ⟨by omega, hlen ▸ h.2⟩] at hrun
  obtain ⟨⟨i, out⟩, hres, rfl⟩ := Option.map_eq_some_iff.mp hrun
  refine ⟨i, ?_, fun cs hcs => ?_⟩
  · simp only [plistUtf8ToUtf16, if_pos h.1, hres]
    rw [if_pos (by omega)]
    rfl
  · subst hcs
    exact utf8Run_read [] hres

theorem plistUtf8ToUtf16_none {bits : Nat} {s : List UInt8} (h : ¬Utf8Fits bits s) :
    plistUtf8ToUtf16 bits s = none := by
  rw [plistUtf8ToUtf16]
  by_cases hroom : s.length * 2 + 1 < 2 ^ (bits - 1)
  · have hrun := utf8Run_start (s.length * 2 + 1) s
    rw [store, length_nil, Nat.zero_add, length_utf8Loop,
      if_neg fun hfits => h ⟨hroom, hfits.2⟩, Option.map_eq_none_iff] at hrun
    simp only [if_pos hroom, hrun]
  · rw [if_neg hroom]

theorem plistUtf16ToUtf8_eq {bits : Nat} {us : List Nat} (hus : us ≠ []) :
    plistUtf16ToUtf8 bits us =
      if Utf16Fits bits us then some (some (us.length, utf16ToUtf8 us)) else none := by
  have hle := utf8Count_le us false
  have hlen : (utf16Loop us none).length = utf8Count us false := length_utf16Loop us none
  have hrun : utf16Run (4 * (us.length + 1)) us none [] = store _ [] (utf16Loop us none) :=
    utf16Run_eq (Nat.zero_le _) (by decide)
  rw [store, length_nil, Nat.zero_add, nil_append, hlen] at hrun
  rw [plistUtf16ToUtf8, if_neg hus]
  by_cases hroom : 4 * (us.length + 1) < 2 ^ (bits - 1)
  · by_cases hint : utf8Count us false < 2 ^ 31
    · rw [if_pos ⟨by omega, hint⟩] at hrun
      simp only [if_pos hroom, hrun]
      rw [if_pos (by omega), if_pos ⟨hroom, hint⟩]
      rfl
    · rw [if_neg fun h => hint h.2] at hrun
      simp only [if_pos hroom, hrun]
      rw [if_neg fun h => hint h.2]
  · simp only [if_neg hroom]
    rw [if_neg fun h => hroom h.1]

theorem isSome_plistUtf8ToUtf16 {bits : Nat} {s : List UInt8} :
    (plistUtf8ToUtf16 bits s).isSome ↔ Utf8Fits bits s := by
  by_cases hfits : Utf8Fits bits s
  · obtain ⟨i, hres, -⟩ := plistUtf8ToUtf16_eq hfits
    rw [hres]
    exact iff_of_true rfl hfits
  · rw [plistUtf8ToUtf16_none hfits]
    exact iff_of_false nofun hfits

theorem isSome_plistUtf16ToUtf8 {bits : Nat} {us : List Nat} :
    (plistUtf16ToUtf8 bits us).isSome ↔ (us ≠ [] → Utf16Fits bits us) := by
  by_cases hnil : us = []
  · rw [plistUtf16ToUtf8, if_pos hnil]
    exact iff_of_true rfl fun hne => absurd hnil hne
  · rw [plistUtf16ToUtf8_eq hnil]
    split
    · next hfits => exact iff_of_true rfl fun _ => hfits
    · next hfits => exact iff_of_false nofun fun h => hfits (h hnil)

/-- What is expected of the conversions: they stay within their buffers and end, and a valid string
goes to the code units of its characters and comes back. -/
structure ConversionRight (bits : Nat) (s : List UInt8) (us : List Nat) : Prop where
  toUtf16 : (plistUtf8ToUtf16 bits s).isSome
  toUtf8 : (plistUtf16ToUtf8 bits us).isSome
  faithful : ∀ cs : List Char, cs ≠ [] → s = cs.flatMap String.utf8EncodeChar →
    plistUtf8ToUtf16 bits s = some (s.length, cs.flatMap utf16EncodeChar) ∧
      plistUtf16ToUtf8 bits (cs.flatMap utf16EncodeChar) =
        some (some ((cs.flatMap utf16EncodeChar).length, s))

theorem flatMap_utf16EncodeChar_ne_nil {cs : List Char} (h : cs ≠ []) :
    cs.flatMap utf16EncodeChar ≠ [] := by
  cases cs with
  | nil => exact absurd rfl h
  | cons c cs =>
    rw [flatMap_cons, utf16EncodeChar]
    split <;> simp

/-- **The conversions.**  They are right exactly on what is not too long: the sizes of the buffers
fit a `long`, and what the string and the code units amount to fits an `int`; for a valid string
also its own code units. -/
theorem conversionRight_iff (bits : Nat) (s : List UInt8) (us : List Nat) :
    ConversionRight bits s us ↔
      Utf8Fits bits s ∧ (us ≠ [] → Utf16Fits bits us) ∧
        ∀ cs : List Char, cs ≠ [] → s = cs.flatMap String.utf8EncodeChar →
          Utf16Fits bits (cs.flatMap utf16EncodeChar) := by
  constructor
  · intro h
    refine ⟨isSome_plistUtf8ToUtf16.mp h.toUtf16, isSome_plistUtf16ToUtf8.mp h.toUtf8,
      fun cs hcs hs => ?_⟩
    · have hback := (h.faithful cs hcs hs).2
      rw [plistUtf16ToUtf8_eq (flatMap_utf16EncodeChar_ne_nil hcs)] at hback
      split at hback
      · next hfits => exact hfits
      · cases hback
  · rintro ⟨hs, hus, hback⟩
    obtain ⟨i, hres, hread⟩ := plistUtf8ToUtf16_eq hs
    refine ⟨by rw [hres]; rfl, isSome_plistUtf16ToUtf8.mpr hus, fun cs hcs henc => ⟨?_, ?_⟩⟩
    · rw [hres, hread cs henc, utf8ToUtf16]
      subst henc
      rw [utf8Loop_encode cs _ (Nat.le_refl _)]
    · rw [plistUtf16ToUtf8_eq (flatMap_utf16EncodeChar_ne_nil hcs), if_pos (hback cs hcs henc),
        utf16ToUtf8, utf16Loop_encode, henc]

theorem unitCount_ascii (n k : Nat) : unitCount (n + k) (List.replicate n 0x61) = n := by
  induction n with
  | zero => cases k <;> rfl
  | succ n ih =>
    have hseq : seqLength (List.replicate (n + 1) 0x61) = 1 := by
      rw [replicate_succ]
      simp [seqLength]
    rw [Nat.add_right_comm, unitCount, hseq, if_neg (by decide), if_neg (by decide),
      replicate_succ, drop_one, tail_cons, ih]
    exact Nat.add_comm 1 n

theorem unitCount_accented (n : Nat) :
    unitCount (n + 2) (0xC3 :: 0xA9 :: List.replicate n 0x61) = n + 1 := by
  have hseq : seqLength (0xC3 :: 0xA9 :: List.replicate n 0x61) = 2 := by
    simp [seqLength]
  rw [unitCount, hseq, if_neg (by decide), if_neg (by decide), drop_succ_cons,
    drop_succ_cons, drop_zero, unitCount_ascii]
  exact Nat.add_comm 1 n

/-- Two gigabytes of text, with a letter that is not ASCII. -/
theorem conversion_refuted : ¬∀ (s : List UInt8) (us : List Nat), ConversionRight 64 s us := by
  intro h
  have hbound : ∀ n : Nat, n + 1 < 2 ^ 31 := by
    intro n
    have hsome := (h (0xC3 :: 0xA9 :: List.replicate n 0x61) []).toUtf16
    by_contra hlong
    rw [plistUtf8ToUtf16_none] at hsome
    · cases hsome
    · intro hfits
      have hint := hfits.2
      rw [length_cons, length_cons, length_replicate, unitCount_accented] at hint
      exact hlong hint
  exact absurd (hbound (2 ^ 31 - 1)) (by decide)

end IDeviceStack.Libplist.Bplist
