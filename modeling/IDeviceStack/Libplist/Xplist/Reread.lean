/-
# `Libplist.Xplist.Reread` — the pieces of a written text, read

Each piece that `node_to_xml` writes is what one of the functions of the reader is
made for.  The statements are about a text that has the piece at the position in
question, followed by anything: `text.drop pos = piece ++ rest`.
-/
import IDeviceStack.Libplist.Xplist.Parse
import IDeviceStack.Libplist.Xplist.Print
import Mathlib.Data.Nat.Digits.Lemmas

namespace IDeviceStack.Libplist.Xplist

open List

section

variable {text : List UInt8} {pos : Nat}

variable {a b : List UInt8}

theorem drop_add_of_drop (h : text.drop pos = a ++ b) : text.drop (pos + a.length) = b := by
  rw [← drop_drop, h, drop_left]

theorem length_of_drop (h : text.drop pos = a) (ha : a ≠ []) : text.length = pos + a.length := by
  have hlen := congrArg List.length h
  have hpos := length_pos_iff.mpr ha
  rw [length_drop] at hlen
  omega

/-! ## Quotes -/

/-- How far a search goes in `s` that minds quotes, and is over where `stop` says so.  The flag is
set between two quotes. -/
def scan (stop : List UInt8 → Bool) : Bool → List UInt8 → Nat
  | _, [] => 0
  | true, x :: s => if x = quote then scan stop false s + 1 else scan stop true s + 1
  | false, x :: s =>
    if stop (x :: s) then 0
    else if x = quote then scan stop true s + 1
    else scan stop false s + 1

variable {s : List UInt8}

/-- The search of `find_next`. -/
def stopsAt (nextchars s : List UInt8) : Bool := s.headD quote ∈ nextchars

theorem scan_quoted (stop : List UInt8 → Bool) (s : List UInt8) :
    scan stop true s = (s.takeWhile (· ≠ quote)).length +
      (match s.dropWhile (· ≠ quote) with | [] => 0 | _ :: r => scan stop false r + 1) := by
  induction s with
  | nil => rfl
  | cons x s ih =>
    rw [scan]
    by_cases hx : x = quote
    · simp [hx]
    · rw [if_neg hx, takeWhile_cons_of_pos (by simpa using hx),
        dropWhile_cons_of_pos (by simpa using hx), ih, length_cons]
      omega

theorem scan_quote (stop : List UInt8 → Bool) (hpos : pos < text.length) (hq : text[pos] = quote)
    (hstop : stop (text.drop pos) = false) :
    scan stop false (text.drop pos) = 1 + span text (· ≠ quote) (pos + 1) +
      (if pos + 1 + span text (· ≠ quote) (pos + 1) < text.length then
        scan stop false (text.drop (pos + 1 + span text (· ≠ quote) (pos + 1) + 1)) + 1 else 0) := by
  have hle := span_le text (· ≠ quote) (pos + 1)
  rw [drop_eq_getElem_cons hpos] at hstop ⊢
  rw [scan, hstop, if_neg (by simp), if_pos hq, scan_quoted]
  obtain ⟨n, hn⟩ : ∃ n, span text (· ≠ quote) (pos + 1) = n := ⟨_, rfl⟩
  have hn' : ((text.drop (pos + 1)).takeWhile (· ≠ quote)).length = n := hn
  have hrest : (text.drop (pos + 1)).dropWhile (· ≠ quote) = text.drop (pos + 1 + n) := by
    rw [← hn']
    exact (drop_add_of_drop (takeWhile_append_dropWhile (p := (· ≠ quote))
      (l := text.drop (pos + 1))).symm).symm
  rw [hn] at hle ⊢
  rw [hn', hrest]
  by_cases hend : pos + 1 + n < text.length
  · rw [if_pos hend, drop_eq_getElem_cons hend]
    simp only
    omega
  · rw [if_neg hend, drop_eq_nil_of_le (by omega)]
    simp only
    omega

theorem passQuoted_quote (hpos : pos < text.length) (hq : text[pos] = quote) :
    passQuoted text true pos = .ok (pos + 1 + span text (· ≠ quote) (pos + 1),
      decide (pos + 1 + span text (· ≠ quote) (pos + 1) < text.length)) := by
  have hle := span_le text (· ≠ quote) (pos + 1)
  rw [passQuoted, byteAt_eq hpos, ok_bind, if_pos (by simp [hq]), findChar_eq, ok_bind]
  obtain ⟨q, hqdef⟩ : ∃ q, pos + 1 + span text (· ≠ quote) (pos + 1) = q := ⟨_, rfl⟩
  rw [hqdef] at hle ⊢
  by_cases hend : q ≥ text.length
  · rw [if_pos hend, decide_eq_false (by omega)]
  · have hlt : q < text.length := by omega
    have hstop := span_stop text (· ≠ quote) (pos + 1) (c := text[q])
      (by rw [hqdef, List.getElem?_eq_getElem hlt])
    rw [if_neg hend, byteAt_eq hlt, ok_bind, if_neg (by simpa using hstop), decide_eq_true hlt]

variable {fuel : Nat}

theorem findNextLoop_scan (nextchars : List UInt8) (hquote : quote ∉ nextchars)
    (hpos : pos ≤ text.length) (hfuel : text.length - pos < fuel) :
    findNextLoop text nextchars true fuel pos =
      .ok (pos + scan (stopsAt nextchars) false (text.drop pos)) := by
  induction fuel generalizing pos with
  | zero => omega
  | succ fuel ih =>
    rw [findNextLoop]
    by_cases hlt : pos < text.length
    · have hhead : (text.drop pos).headD quote = text[pos] := by
        rw [drop_eq_getElem_cons hlt]
        rfl
      rw [if_pos hlt]
      by_cases hq : text[pos] = quote
      · have hle := span_le text (· ≠ quote) (pos + 1)
        rw [passQuoted_quote hlt hq, ok_bind, scan_quote _ hlt hq (by
          rw [stopsAt, hhead, hq]
          simpa using hquote)]
        have hstop (c : UInt8) := span_stop text (· ≠ quote) (pos + 1)
          (c := c)
        obtain ⟨n, hn⟩ : ∃ n, span text (· ≠ quote) (pos + 1) = n := ⟨_, rfl⟩
        rw [hn] at hle hstop ⊢
        by_cases hend : pos + 1 + n < text.length
        · have hquoted : text[pos + 1 + n] = quote := by
            simpa using hstop _ (List.getElem?_eq_getElem hend)
          simp only [decide_eq_true hend, if_true, byteAt_eq hend, ok_bind, hquoted,
            if_neg hquote, if_pos hend]
          rw [ih (by omega) (by omega)]
          congr 1
          omega
        · simp only [decide_eq_false hend, Bool.false_eq_true, if_false, if_neg hend]
          congr 1
          omega
      · have hpass : passQuoted text true pos = .ok (pos, true) := by
          rw [passQuoted, byteAt_eq hlt, ok_bind, if_neg (by simp [hq])]
        rw [hpass, ok_bind, drop_eq_getElem_cons hlt, scan, stopsAt, headD_cons]
        simp only [if_true, byteAt_eq hlt, ok_bind, decide_eq_true_eq]
        by_cases hmem : text[pos] ∈ nextchars
        · rw [if_pos hmem, if_pos hmem, Nat.add_zero]
        · rw [if_neg hmem, if_neg hmem, if_neg hq, ih (by omega) (by omega)]
          congr 1
          omega
    · rw [if_neg hlt, drop_eq_nil_of_le (by omega)]
      rfl

theorem findNext_scan (nextchars : List UInt8) (hquote : quote ∉ nextchars)
    (hpos : pos ≤ text.length) :
    findNext text nextchars true pos =
      .ok (pos + scan (stopsAt nextchars) false (text.drop pos)) :=
  findNextLoop_scan nextchars hquote hpos (by omega)

variable {str : List UInt8}

theorem findStrLoop_scan (hstr : NulFree str)
    (hend : pos + scan str.isPrefixOf false (text.drop pos) + str.length < text.length)
    (hfuel : text.length - pos < fuel) :
    findStrLoop text str true fuel pos = .ok (pos + scan str.isPrefixOf false (text.drop pos)) := by
  induction fuel generalizing pos with
  | zero => omega
  | succ fuel ih =>
    have hlt : pos < text.length := by omega
    rw [findStrLoop, if_pos (by omega), strncmp_eq text hstr (by omega), ok_bind]
    by_cases hmatch : str <+: text.drop pos
    · have hscan : scan str.isPrefixOf false (text.drop pos) = 0 := by
        rw [drop_eq_getElem_cons hlt] at hmatch ⊢
        rw [scan, if_pos ( isPrefixOf_iff_prefix.mpr hmatch)]
      rw [decide_eq_true hmatch, if_pos rfl, hscan, Nat.add_zero]
    · have hstop : str.isPrefixOf (text.drop pos) = false := by
        rw [← Bool.not_eq_true, isPrefixOf_iff_prefix]
        exact hmatch
      rw [decide_eq_false hmatch, if_neg (by simp)]
      by_cases hq : text[pos] = quote
      · rw [scan_quote _ hlt hq hstop] at hend ⊢
        rw [passQuoted_quote hlt hq, ok_bind]
        obtain ⟨n, hn⟩ : ∃ n, span text (· ≠ quote) (pos + 1) = n := ⟨_, rfl⟩
        rw [hn] at hend ⊢
        have hlt' : pos + 1 + n < text.length := by omega
        rw [if_pos hlt'] at hend ⊢
        simp only [decide_eq_true hlt', if_true]
        rw [ih (by omega) (by omega)]
        congr 1
        omega
      · have hpass : passQuoted text true pos = .ok (pos, true) := by
          rw [passQuoted, byteAt_eq hlt, ok_bind, if_neg (by simp [hq])]
        have hscan : scan str.isPrefixOf false (text.drop pos) =
            scan str.isPrefixOf false (text.drop (pos + 1)) + 1 := by
          rw [drop_eq_getElem_cons hlt] at hstop
          rw [drop_eq_getElem_cons hlt, scan, hstop, if_neg (by simp), if_neg hq]
        rw [hscan] at hend ⊢
        rw [hpass, ok_bind]
        simp only [if_true]
        rw [ih (by omega) (by omega)]
        congr 1
        omega

/-! ## Tags -/

theorem findTagEnd_here (h : text.drop pos = ch '>' :: s) : findTagEnd text pos = .ok pos := by
  rw [findTagEnd, byteAt_of_drop h, ok_bind, if_neg (by simp)]

/-- A name is something without blanks and angle brackets. -/
def IsName (name : List UInt8) : Prop :=
  name ≠ [] ∧ name.length + 1 < 2 ^ 31 ∧ ∀ c ∈ name, c ∉ tagEnd ∧ c ≠ 0

instance (name : List UInt8) : Decidable (IsName name) :=
  inferInstanceAs (Decidable (_ ∧ _ ∧ _))

variable {name : List UInt8}

theorem readTag_name {x : UInt8} {e : Nat} (hname : IsName name)
    (h : text.drop pos = name ++ x :: s) (hx : x ∈ tagEnd)
    (hend : findTagEnd text (pos + name.length) = .ok e) (he : text.drop e = ch '>' :: a) :
    readTag text pos = finishTag text name pos (pos + name.length) e := by
  obtain ⟨-, hlen, hchars⟩ := hname
  have hlt := lt_length_of_drop (drop_add_of_drop h)
  have hspan : span text (· ∉ tagEnd) pos = name.length :=
    span_of_drop h (fun c hc => by simpa using (hchars c hc).1) (by simpa using hx)
  have hcopy : copyName text pos name.length = .ok name := by
    rw [copyName, if_pos hlen, bytesAt, if_pos (by omega), ok_bind, h, take_left, strncpy,
      cstr_of_nulFree fun c hc => (hchars c hc).2, Nat.sub_self, replicate_zero, append_nil]
  rw [readTag, findNext_eq, ok_bind, hspan, if_neg (by omega), Nat.add_sub_cancel_left, hcopy,
    ok_bind, hend, ok_bind, if_neg (by have := lt_length_of_drop he; omega), byteAt_of_drop he,
    ok_bind, if_neg (by simp)]

theorem readTag_open (hname : IsName name) (hslash : name.getLast? ≠ some (ch '/'))
    (h : text.drop pos = name ++ ch '>' :: s) :
    readTag text pos = .ok (some (⟨name, name.length, false⟩, pos + name.length + 1)) := by
  have hend := drop_add_of_drop h
  rw [readTag_name hname h (by decide) (findTagEnd_here hend) hend]
  obtain ⟨init, last, rfl⟩ := eq_nil_or_concat' name |>.resolve_left hname.1
  have hlast : text.drop (pos + (init ++ [last]).length - 1) = last :: ch '>' :: s := by
    have hsplit : text.drop pos = init ++ (last :: ch '>' :: s) := by rw [h]; simp
    have hdrop := drop_add_of_drop hsplit
    rw [length_append, length_singleton]
    exact hdrop
  have hnot : last ≠ ch '/' := by simpa using hslash
  rw [finishTag, byteAt_of_drop hlast, ok_bind, if_neg hnot,
    cstr_of_nulFree fun c hc => (hname.2.2 c hc).2, Nat.add_sub_cancel_left]

theorem readTag_empty (hname : IsName (name ++ [ch '/']))
    (h : text.drop pos = name ++ ch '/' :: ch '>' :: s) :
    readTag text pos = .ok (some (⟨name, name.length + 1, true⟩, pos + name.length + 2)) := by
  have h' : text.drop pos = (name ++ [ch '/']) ++ ch '>' :: s := by rw [h]; simp
  have hend := drop_add_of_drop h'
  have hslash := drop_add_of_drop h
  rw [readTag_name hname h' (by decide) (findTagEnd_here hend) hend]
  obtain ⟨-, hlen, hchars⟩ := hname
  rw [length_append, length_singleton] at hlen ⊢
  have hidx : pos + (name.length + 1) - 1 = pos + name.length := by omega
  have hcut : pos + (name.length + 1) - pos - 1 = name.length := by omega
  rw [finishTag, hidx, byteAt_of_drop hslash, ok_bind, if_pos rfl, hcut, if_pos (by omega),
    take_left, cstr_of_nulFree fun c hc => (hchars c (mem_append_left _ hc)).2,
    Nat.add_sub_cancel_left]
  rfl

variable {w : List UInt8} {c : UInt8}

theorem parseStep_eq (conv : Conv) {s : State} (h : text.drop s.pos = w ++ ch '<' :: c :: b)
    (hw : ∀ x ∈ w, isBlank x) :
    parseStep conv text s =
      if c = ch '?' then do
        let next ← skipInstruction text (s.pos + w.length + 1)
        .ok (s.skip next)
      else if c = ch '!' then do
        let next ← skipSpecial text (s.pos + w.length + 1)
        .ok (s.skip next)
      else parseTag conv text s (s.pos + w.length + 1) := by
  have hopen := drop_add_of_drop h
  have hnext := drop_succ_of_drop hopen
  have hlt := lt_length_of_drop hnext
  have hblank : span text isBlank s.pos = w.length := span_of_drop h hw (by decide)
  rw [parseStep, parseSkipWs_eq, ok_bind, hblank, if_neg (by omega), byteAt_of_drop hopen, ok_bind,
    if_neg (by simp), if_neg (by omega), byteAt_of_drop hnext, ok_bind]

theorem parseStep_tag (conv : Conv) {s : State} (h : text.drop s.pos = w ++ ch '<' :: c :: b)
    (hw : ∀ x ∈ w, isBlank x) (hc : c ≠ ch '?') (hc' : c ≠ ch '!') :
    parseStep conv text s = parseTag conv text s (s.pos + w.length + 1) := by
  rw [parseStep_eq conv h hw, if_neg hc, if_neg hc']

/-! ## Text -/

/-- The parts of a text in one piece. -/
def plainParts (pos : Nat) (body : List UInt8) : List TextPart :=
  if body = [] then [] else [⟨pos, body.length, false⟩]

variable {tag body : List UInt8}

theorem textPartsLoop_plain (hfuel : 0 < fuel) (htag : NulFree tag) (hbody : ∀ c ∈ body, c ≠ ch '<')
    (h : text.drop pos = body ++ ch '<' :: ch '/' :: (tag ++ ch '>' :: s)) :
    textPartsLoop text tag tag.length fuel [] pos =
      .ok (some (plainParts pos body), pos + body.length + 2 + tag.length + 1) := by
  obtain ⟨fuel, rfl⟩ := Nat.exists_eq_succ_of_ne_zero (n := fuel) (by omega)
  have hopen := drop_add_of_drop h
  have hslash := drop_succ_of_drop hopen
  have hname := drop_succ_of_drop hslash
  have hgt := drop_add_of_drop hname
  have hlt := lt_length_of_drop hgt
  have hspan : span text (· ≠ ch '<') pos = body.length :=
    span_of_drop h (fun c hc => by simpa using hbody c hc) (by simp)
  have hstep : textPartStep text [] pos =
      .ok (.close [] pos (pos + body.length) (pos + body.length + 1)) := by
    rw [textPartStep, findChar_eq, ok_bind, hspan, if_neg (by omega), byteAt_of_drop hopen, ok_bind,
      if_neg (by simp), if_neg (by omega), byteAt_of_drop hslash, ok_bind, if_neg (by decide),
      if_pos rfl]
  have hskip : span text isBlank (pos + body.length + 1 + 1 + tag.length) = 0 := by
    have h0 := span_of_drop (p := isBlank) (a := []) (c := ch '>') (s := s) (by simpa using hgt)
      (by simp) (by decide)
    simpa using h0
  have hparts : addText [] pos (pos + body.length) = plainParts pos body := by
    rw [addText, plainParts, Nat.add_sub_cancel_left]
    cases body with
    | nil => rfl
    | cons c body => simp
  rw [textPartsLoop, hstep, ok_bind]
  simp only
  rw [closingTag, if_neg (by omega), strncmp_eq text htag (by omega), ok_bind, if_pos ?_,
    parseSkipWs_eq, ok_bind, hskip, Nat.add_zero, if_neg (by omega), byteAt_of_drop hgt, ok_bind,
    if_neg (by simp), hparts]
  rw [hname]
  exact decide_eq_true (prefix_append _ _)

theorem getTextParts_plain (htag : NulFree tag) (hbody : ∀ c ∈ body, c ≠ ch '<')
    (h : text.drop pos = body ++ ch '<' :: ch '/' :: (tag ++ ch '>' :: s)) :
    getTextParts text tag tag.length false pos =
      .ok (some (plainParts pos body), pos + body.length + 2 + tag.length + 1) := by
  simp only [getTextParts, Bool.false_eq_true, if_false, ok_bind]
  exact textPartsLoop_plain (by omega) htag hbody h

theorem getTextParts_skip (htag : NulFree tag) (hw : ∀ c ∈ w, isBlank c)
    (hbody : ∀ c ∈ body, c ≠ ch '<') (hhead : ∀ c ∈ body.head?, isBlank c = false)
    (h : text.drop pos = w ++ (body ++ ch '<' :: ch '/' :: (tag ++ ch '>' :: s))) :
    getTextParts text tag tag.length true pos =
      .ok (some (plainParts (pos + w.length) body),
        pos + w.length + body.length + 2 + tag.length + 1) := by
  have hspan : span text isBlank pos = w.length := by
    cases body with
    | nil => exact span_of_drop (a := w) (c := ch '<') h hw (by decide)
    | cons c body =>
      refine span_of_drop (a := w) (c := c) h hw ?_
      simpa using hhead c (by simp)
  simp only [getTextParts, if_true, parseSkipWs_eq, ok_bind, hspan]
  exact textPartsLoop_plain (by omega) htag hbody (drop_add_of_drop h)

/-! ## Strings -/

theorem escapeChar_mem {x : UInt8} (h : c ∈ escapeChar x) : c ≠ ch '<' ∧ (x ≠ 0 → c ≠ 0) := by
  have hentity : ∀ c ∈ lit "&lt;" ++ lit "&gt;" ++ lit "&amp;", c ≠ ch '<' ∧ c ≠ 0 := by decide
  have hplain (hc : c ∈ lit "&lt;" ++ lit "&gt;" ++ lit "&amp;") :
      c ≠ ch '<' ∧ (x ≠ 0 → c ≠ 0) := ⟨(hentity c hc).1, fun _ => (hentity c hc).2⟩
  rw [escapeChar] at h
  split at h
  · exact hplain (mem_append_left _ (mem_append_left _ h))
  split at h
  · exact hplain (mem_append_left _ (mem_append_right _ h))
  split at h
  · exact hplain (mem_append_right _ h)
  · rename_i hlt _ _
    rw [mem_singleton.mp h]
    exact ⟨hlt, id⟩

theorem escape_ne_lt (s : List UInt8) : ∀ c ∈ escape s, c ≠ ch '<' := by
  intro c hc
  obtain ⟨x, -, hx⟩ := mem_flatMap.mp hc
  exact (escapeChar_mem hx).1

theorem escape_nulFree (hs : NulFree s) : NulFree (escape s) := by
  intro c hc
  obtain ⟨x, hmem, hx⟩ := mem_flatMap.mp hc
  exact (escapeChar_mem hx).2 (hs x hmem)

theorem unescapeLoop_entity {fuel : Nat} (done bytes : List UInt8) {name s : List UInt8}
    (hne : name ≠ []) (hlen : name.length + 2 < 2 ^ 31) (hsemi : ∀ c ∈ name, c ≠ ch ';')
    (hentity : entityBytes (name ++ ch ';' :: s) name.length = some bytes) :
    unescapeLoop (fuel + 1) done (ch '&' :: (name ++ ch ';' :: s)) =
      unescapeLoop fuel (done ++ bytes) s := by
  obtain ⟨c, name, rfl⟩ := exists_cons_of_ne_nil hne
  have htake : ((c :: name ++ ch ';' :: s).takeWhile (· ≠ ch ';')).length = (c :: name).length := by
    rw [takeWhile_append_of_pos (fun x hx => by simpa using hsemi x hx),
      takeWhile_cons_of_neg (by simp), append_nil]
  have hdrop : (c :: name ++ ch ';' :: s).drop ((c :: name).length + 1) = s := by
    rw [drop_length_add_append]
    rfl
  rw [cons_append] at htake hdrop hentity ⊢
  rw [unescapeLoop, if_pos rfl]
  simp only [htake, hentity, hdrop, if_pos hlen]
  rw [if_neg (by simp), if_pos (by simp)]

/-- **Escaped text is unescaped.** -/
theorem unescapeLoop_escape (done s : List UInt8) (hfuel : (escape s).length < fuel) :
    unescapeLoop fuel done (escape s) = .ok (some (done ++ s)) := by
  induction s generalizing fuel done with
  | nil =>
    obtain ⟨fuel, rfl⟩ := Nat.exists_eq_succ_of_ne_zero (n := fuel) (by omega)
    rw [escape, flatMap_nil, unescapeLoop, append_nil]
  | cons c s ih =>
    obtain ⟨fuel, rfl⟩ := Nat.exists_eq_succ_of_ne_zero (n := fuel) (by omega)
    have hcons : escape (c :: s) = escapeChar c ++ escape s := rfl
    rw [hcons, length_append] at hfuel
    rw [hcons]
    by_cases hlt : c = ch '<'
    · have hchar : escapeChar c = ch '&' :: (lit "lt" ++ [ch ';']) := by rw [hlt]; decide
      rw [hchar, length_cons] at hfuel
      rw [hchar, cons_append, append_assoc, singleton_append,
        unescapeLoop_entity done [ch '<'] (by decide) (by decide) (by decide) rfl,
        ih _ (by omega), hlt, append_assoc, singleton_append]
    by_cases hgt : c = ch '>'
    · have hchar : escapeChar c = ch '&' :: (lit "gt" ++ [ch ';']) := by rw [hgt]; decide
      rw [hchar, length_cons] at hfuel
      rw [hchar, cons_append, append_assoc, singleton_append,
        unescapeLoop_entity done [ch '>'] (by decide) (by decide) (by decide) rfl,
        ih _ (by omega), hgt, append_assoc, singleton_append]
    by_cases hamp : c = ch '&'
    · have hchar : escapeChar c = ch '&' :: (lit "amp" ++ [ch ';']) := by rw [hamp]; decide
      rw [hchar, length_cons] at hfuel
      rw [hchar, cons_append, append_assoc, singleton_append,
        unescapeLoop_entity done [ch '&'] (by decide) (by decide) (by decide) rfl,
        ih _ (by omega), hamp, append_assoc, singleton_append]
    have hchar : escapeChar c = [c] := by
      rw [escapeChar, if_neg hlt, if_neg hgt, if_neg hamp]
    rw [hchar, length_singleton] at hfuel
    rw [hchar, singleton_append]
    have htail := ih (done ++ [c]) (show (escape s).length < fuel by omega)
    rw [append_assoc, singleton_append] at htail
    cases hs : escape s with
    | nil =>
      rw [hs] at htail
      obtain ⟨fuel, rfl⟩ := Nat.exists_eq_succ_of_ne_zero (n := fuel) (by omega)
      rw [unescapeLoop] at htail
      rw [unescapeLoop]
      exact htail
    | cons d rest =>
      rw [hs] at htail
      rw [unescapeLoop, if_neg hamp]
      exact htail

/-! ## Numbers -/

theorem digitValue_ofNat : ∀ d < 10, digitValue (UInt8.ofNat (48 + d)) = d := by decide

theorem foldl_digits (ds : List Nat) (hds : ∀ d ∈ ds, d < 10) :
    (ds.reverse.map fun d => UInt8.ofNat (48 + d)).foldl (fun v c => v * 10 + digitValue c) 0 =
      Nat.ofDigits 10 ds := by
  rw [foldl_map, foldl_reverse, Nat.ofDigits_eq_foldr]
  induction ds with
  | nil => rfl
  | cons d ds ih =>
    rw [foldr_cons, foldr_cons, ih fun x hx => hds x (mem_cons_of_mem d hx),
      digitValue_ofNat d (hds d mem_cons_self)]
    simp only [Nat.cast_id]
    ring

theorem decimal_spec (n : Nat) :
    ∃ c s, decimal n = c :: s ∧ (∀ x ∈ decimal n, digitValue x < 10) ∧
      (decimal n).foldl (fun v c => v * 10 + digitValue c) 0 = n ∧ (c = ch '0' → decimal n = [c]) := by
  rw [decimal]
  split
  · rename_i hn
    exact ⟨ch '0', [], rfl, by decide, by rw [hn]; decide, fun _ => rfl⟩
  · rename_i hn
    have hdigits : ∀ d ∈ Nat.digits 10 n, d < 10 := fun d hd => Nat.digits_lt_base (by decide) hd
    have hne : Nat.digits 10 n ≠ [] := Nat.digits_ne_nil_iff_ne_zero.mpr hn
    obtain ⟨init, last, hsplit⟩ := eq_nil_or_concat' (Nat.digits 10 n) |>.resolve_left hne
    have hlast : last ≠ 0 := by
      have h := Nat.getLast_digit_ne_zero 10 hn
      simpa [hsplit] using h
    refine ⟨UInt8.ofNat (48 + last), _, by rw [hsplit, reverse_append]; rfl, ?_, ?_, ?_⟩
    · intro x hx
      obtain ⟨d, hd, rfl⟩ := mem_map.mp hx
      have hlt := hdigits d (mem_reverse.mp hd)
      rw [digitValue_ofNat d hlt]
      exact hlt
    · rw [foldl_digits _ hdigits, Nat.ofDigits_digits]
    · intro hzero
      have hlt := hdigits last (by rw [hsplit]; simp)
      have hval := digitValue_ofNat last hlt
      rw [hzero] at hval
      exact absurd hval.symm hlast

theorem plain_of_digit (h : digitValue c < 10) :
    isSpace c = false ∧ c ≠ ch '-' ∧ c ≠ ch '+' ∧ isBlank c = false ∧ c ≠ ch '<' ∧ c ≠ 0 := by
  have hall : ∀ d < 10, isSpace (UInt8.ofNat (48 + d)) = false ∧ UInt8.ofNat (48 + d) ≠ ch '-' ∧
      UInt8.ofNat (48 + d) ≠ ch '+' ∧ isBlank (UInt8.ofNat (48 + d)) = false ∧
      UInt8.ofNat (48 + d) ≠ ch '<' ∧ UInt8.ofNat (48 + d) ≠ 0 := by
    decide
  have hrange : 48 ≤ c.toNat ∧ c.toNat ≤ 57 := by
    rw [digitValue] at h
    split at h
    · assumption
    split at h
    · omega
    split at h
    · omega
    · omega
  have hc : UInt8.ofNat (48 + (c.toNat - 48)) = c := by
    rw [Nat.add_sub_cancel' hrange.1, UInt8.ofNat_toNat]
  have hplain := hall (c.toNat - 48) (by omega)
  rwa [hc] at hplain

theorem strtoull_decimal {n : Nat} (hn : n < 2 ^ 64) (s : List UInt8) :
    (strtoull 0 (decimal n ++ ch '<' :: s)).1 = n := by
  obtain ⟨c, rest, hc, hdigits, hval, hzero⟩ := decimal_spec n
  have hplain := plain_of_digit (hdigits c (by rw [hc]; exact mem_cons_self))
  have hblanks : (decimal n ++ ch '<' :: s).takeWhile isSpace = [] := by
    rw [hc, cons_append, takeWhile_cons_of_neg (by simp [hplain.1])]
  have hhead : (decimal n ++ ch '<' :: s).headD 0 = c := by rw [hc]; rfl
  -- `0` alone is octal, and everything else is decimal
  obtain ⟨base, hbase, hpre⟩ : ∃ base, (base = 10 ∨ base = 8 ∧ n = 0) ∧
      numberBase 0 (decimal n ++ ch '<' :: s) = (base, 0) := by
    rw [numberBase, hhead]
    by_cases h0 : c = ch '0'
    · have hone := hzero h0
      rw [hone] at hval
      refine ⟨8, .inr ⟨rfl, ?_⟩, ?_⟩
      · rw [← hval, h0]
        decide
      · have hnext : (decimal n ++ ch '<' :: s).getD 1 0 = ch '<' := by rw [hone]; rfl
        rw [hnext, if_neg, if_pos rfl, if_pos h0]
        rintro ⟨-, -, hx, -⟩
        exact absurd hx (by decide)
    · exact ⟨10, .inl rfl, by rw [if_neg (by simp [h0]), if_pos rfl, if_neg h0]⟩
  have hof : digitsOf base (decimal n ++ ch '<' :: s) = decimal n ∧
      (decimal n).foldl (fun v c => v * base + digitValue c) 0 = n := by
    rcases hbase with rfl | ⟨rfl, rfl⟩
    · refine ⟨?_, hval⟩
      rw [digitsOf, takeWhile_append_of_pos (fun x hx => by simpa using hdigits x hx),
        takeWhile_cons_of_neg (by decide), append_nil]
    · exact ⟨by rw [digitsOf]; rfl, rfl⟩
  rw [strtoull]
  simp only [hblanks, length_nil, drop_zero, hhead, hplain.2.1, hplain.2.2.1, or_self,
    if_false, hpre, hof.1, hof.2]
  rw [if_neg (by rw [hc]; simp)]
  simp only
  rw [if_neg (by omega)]

theorem integerData_decimal (n : UInt64) (s : List UInt8) :
    integerData (decimal n.toNat ++ ch '<' :: s) =
      .scalar (.uint n) (if n.toNat < 2 ^ 63 then 8 else 16) := by
  obtain ⟨c, rest, hc, hdigits, -, -⟩ := decimal_spec n.toNat
  have hplain := plain_of_digit (hdigits c (by rw [hc]; exact mem_cons_self))
  have hhead : (decimal n.toNat ++ ch '<' :: s).headD 0 = c := by rw [hc]; rfl
  rw [integerData]
  simp only [hhead, hplain.2.1, hplain.2.2.1, or_self, if_false, strtoull_decimal n.toNat_lt,
    UInt64.ofNat_toNat]
  split <;> rfl

/-! ## Data -/

theorem base64Str_ne_lt : ∀ v < 64, base64Str v ≠ ch '<' ∧ isBlank (base64Str v) = false := by decide

theorem base64encode_plain (buf : List UInt8) :
    ∀ c ∈ base64encode buf, c ≠ ch '<' ∧ isBlank c = false := by
  have hpad : base64Pad ≠ ch '<' ∧ isBlank base64Pad = false := by decide
  have hgroup (a : UInt8) (b c : Option UInt8) :
      ∀ x ∈ encodeGroup a b c, x ≠ ch '<' ∧ isBlank x = false := by
    intro x hx
    have ha := a.toNat_lt
    have hb := (b.getD 0).toNat_lt
    have hc := (c.getD 0).toNat_lt
    simp only [encodeGroup, mem_cons, not_mem_nil, or_false] at hx
    rw [Nat.shiftRight_eq_div_pow, Nat.shiftLeft_eq, Nat.shiftRight_eq_div_pow, Nat.shiftLeft_eq,
      Nat.shiftRight_eq_div_pow] at hx
    rcases hx with rfl | rfl | rfl | rfl
    · exact base64Str_ne_lt _ (by omega)
    · exact base64Str_ne_lt _ (by omega)
    · split
      · exact base64Str_ne_lt _ (by omega)
      · exact hpad
    · split
      · exact base64Str_ne_lt _ (by omega)
      · exact hpad
  induction buf using base64encode.induct with
  | case1 => simp [base64encode]
  | case2 a => exact hgroup a none none
  | case3 a b => exact hgroup a (some b) none
  | case4 a b c rest ih =>
    intro x hx
    rw [base64encode] at hx
    rcases mem_append.mp hx with hx | hx
    · exact hgroup a (some b) (some c) x hx
    · exact ih x hx

theorem maxread_pos (depth : Nat) : 0 < maxread depth := by
  have hle : indentOf depth ≤ 8 := by
    rw [indentOf]
    split <;> omega
  rw [maxread]
  omega

theorem tabs_blank (n : Nat) : ∀ c ∈ tabs n, c = 9 := fun _ hc => eq_of_mem_replicate hc

theorem dataLines_cons (depth fuel : Nat) (b : UInt8) (buf : List UInt8) :
    dataLines depth (fuel + 1) (b :: buf) =
      tabs (indentOf depth) ++ base64encode ((b :: buf).take (maxread depth)) ++ [10] ++
        dataLines depth fuel ((b :: buf).drop (maxread depth)) := rfl

theorem dataLines_ne_lt (depth fuel : Nat) (buf : List UInt8) :
    ∀ c ∈ dataLines depth fuel buf, c ≠ ch '<' := by
  induction fuel generalizing buf with
  | zero => intro c hc; cases hc
  | succ fuel ih =>
    cases buf with
    | nil => intro c hc; cases hc
    | cons b buf =>
      intro c hc
      rw [dataLines_cons] at hc
      simp only [mem_append, mem_singleton] at hc
      rcases hc with ((hc | hc) | rfl) | hc
      · rw [tabs_blank _ c hc]
        decide
      · exact (base64encode_plain _ c hc).1
      · decide
      · exact ih _ c hc

theorem decodeLoop_dataLines (depth : Nat) (buf s out : List UInt8) (hfuel : buf.length ≤ fuel) :
    decodeLoop (dataLines depth fuel buf ++ s) [] out = decodeLoop s [] (out ++ buf) := by
  induction fuel generalizing buf out with
  | zero =>
    obtain rfl := eq_nil_of_length_eq_zero (Nat.le_zero.mp hfuel)
    rw [dataLines, append_nil, nil_append]
  | succ fuel ih =>
    cases buf with
    | nil => rw [dataLines, append_nil, nil_append]
    | cons b buf =>
      have hpos := maxread_pos depth
      rw [length_cons] at hfuel
      rw [dataLines_cons, append_assoc, append_assoc, append_assoc,
        decodeLoop_blank (fun c hc => by rw [tabs_blank _ c hc]; decide), decodeLoop_encode,
        decodeLoop_blank (by decide), ih _ _ (by rw [length_drop, length_cons]; omega),
        append_assoc, take_append_drop]

/-! ## Content -/

theorem plainParts_of_ne_nil (h : body ≠ []) :
    plainParts pos body = [⟨pos, body.length, false⟩] := if_neg h

theorem textPartsGetContent_plain (h : text.drop pos = body ++ c :: s) :
    textPartsGetContent text ⟨pos, body.length, false⟩ [] =
      .ok (some (body ++ c :: s, body.length)) := by
  rw [textPartsGetContent, if_pos rfl, byteAt_of_drop (drop_add_of_drop h), ok_bind, h]

theorem copyParts_escape (hstr : NulFree str) (h : text.drop pos = escape str ++ s) :
    copyParts text true (plainParts pos (escape str)) = .ok (some str) := by
  by_cases hnil : escape str = []
  · have hstr : str = [] := by
      cases str with
      | nil => rfl
      | cons c str =>
        have hne : escapeChar c ≠ [] := by
          rw [escapeChar]
          split
          · decide
          split
          · decide
          split
          · decide
          · simp
        exact absurd (append_eq_nil_iff.mp hnil).1 hne
    rw [plainParts, if_pos hnil, hstr]
    rfl
  · have hle : pos + (escape str).length ≤ text.length := by
      have hne : escape str ++ s ≠ [] := by simp [hnil]
      have hlen := length_of_drop h hne
      rw [length_append] at hlen
      omega
    have hcopy : strncpy (escape str) = escape str := by
      rw [strncpy, cstr_of_nulFree (escape_nulFree hstr), Nat.sub_self, replicate_zero, append_nil]
    rw [plainParts_of_ne_nil hnil, copyParts, copyPart, bytesAt, if_pos hle, ok_bind]
    simp only [Bool.not_false, Bool.and_self, if_true, h, take_left, hcopy]
    rw [unescapeEntities, unescapeLoop_escape [] str (by omega), ok_bind]
    simp [copyParts]

theorem readContent_string (conv : Conv) (hstr : NulFree str)
    (h : text.drop pos = escape str ++ (closeTag "string" ++ s)) (wantsKey : Bool) :
    readContent conv text ⟨lit "string", 6, false⟩ pos wantsKey =
      .ok (.node (.scalar (.string str) str.length)
        (pos + (escape str).length + (closeTag "string").length) false) := by
  have htext : text.drop pos = escape str ++ ch '<' :: ch '/' :: (lit "string" ++ ch '>' :: s) := by
    rw [h]
    simp [closeTag]
  have hparts := getTextParts_plain (by decide) (escape_ne_lt str) htext
  rw [readContent, if_neg (by decide), if_neg (by decide), if_neg (by decide), if_neg (by decide),
    if_neg (by decide), if_neg (by decide), if_pos (by decide), stringContent]
  have hlen : (lit "string").length = 6 := rfl
  rw [hlen] at hparts
  simp only [Bool.false_eq_true, if_false, hparts, ok_bind, copyParts_escape hstr h]
  rw [if_neg (fun hkey => absurd hkey.1 (by decide))]
  rfl

theorem readContent_key (conv : Conv) (hstr : NulFree str)
    (h : text.drop pos = escape str ++ (closeTag "key" ++ s)) :
    readContent conv text ⟨lit "key", 3, false⟩ pos true =
      .ok (.key str (pos + (escape str).length + (closeTag "key").length)) := by
  have htext : text.drop pos = escape str ++ ch '<' :: ch '/' :: (lit "key" ++ ch '>' :: s) := by
    rw [h]
    simp [closeTag]
  have hparts := getTextParts_plain (by decide) (escape_ne_lt str) htext
  rw [readContent, if_neg (by decide), if_neg (by decide), if_neg (by decide), if_neg (by decide),
    if_neg (by decide), if_neg (by decide), if_pos (by decide), stringContent]
  have hlen : (lit "key").length = 3 := rfl
  rw [hlen] at hparts
  simp only [Bool.false_eq_true, if_false, hparts, ok_bind, copyParts_escape hstr h]
  rw [if_pos (by simp)]
  rfl

theorem readContent_integer (conv : Conv) {n : UInt64}
    (h : text.drop pos = decimal n.toNat ++ (closeTag "integer" ++ s)) (wantsKey : Bool) :
    readContent conv text ⟨lit "integer", 7, false⟩ pos wantsKey =
      .ok (.node (.scalar (.uint n) (if n.toNat < 2 ^ 63 then 8 else 16))
        (pos + (decimal n.toNat).length + (closeTag "integer").length) false) := by
  obtain ⟨c, rest, hc, hdigits, -, -⟩ := decimal_spec n.toNat
  have hplain (x : UInt8) (hx : x ∈ decimal n.toNat) := plain_of_digit (hdigits x hx)
  have htext : text.drop pos =
      decimal n.toNat ++ ch '<' :: ch '/' :: (lit "integer" ++ ch '>' :: s) := by
    rw [h]
    simp [closeTag]
  have hparts := getTextParts_skip (w := []) (by decide) (by simp)
    (fun x hx => (hplain x hx).2.2.2.2.1)
    (fun x hx => (hplain x (mem_of_mem_head? hx)).2.2.2.1) htext
  have hcontent := textPartsGetContent_plain htext
  rw [readContent, if_neg (by decide), if_neg (by decide), if_pos rfl, textContent]
  have hlen : (lit "integer").length = 7 := rfl
  rw [hlen, plainParts_of_ne_nil (by rw [hc]; simp)] at hparts
  simp only [length_nil, Nat.add_zero] at hparts
  simp only [Bool.false_eq_true, if_false, hparts, ok_bind, hcontent, integerData_decimal]
  rfl

theorem readContent_data (conv : Conv) (depth : Nat) {buf : List UInt8}
    (hbuf : buf.length < 2 ^ 31)
    (h : text.drop pos = [10] ++ dataLines depth buf.length buf ++ tabs depth ++
      (closeTag "data" ++ s)) (wantsKey : Bool) :
    readContent conv text ⟨lit "data", 4, false⟩ pos wantsKey =
      .ok (.node (.scalar (.data buf) buf.length)
        (pos + ([10] ++ dataLines depth buf.length buf ++ tabs depth).length +
          (closeTag "data").length) false) := by
  -- the blanks before the first digit, and the rest
  obtain ⟨w, body, hsplit, hw, hhead, hbody, hnil, hdecode⟩ : ∃ w body,
      [10] ++ dataLines depth buf.length buf ++ tabs depth = w ++ body ∧ (∀ c ∈ w, isBlank c) ∧
      (∀ c ∈ body.head?, isBlank c = false) ∧ (∀ c ∈ body, c ≠ ch '<') ∧
      (body = [] → buf = []) ∧ decodeLoop body [] [] = buf := by
    have htabs (n : Nat) : ∀ c ∈ tabs n, isBlank c := fun c hc => by rw [tabs_blank n c hc]; decide
    cases buf with
    | nil =>
      refine ⟨[10] ++ tabs depth, [], by simp [dataLines], ?_, by simp, by simp, fun _ => rfl, rfl⟩
      intro c hc
      rcases mem_append.mp hc with hc | hc
      · rw [mem_singleton.mp hc]
        decide
      · exact htabs depth c hc
    | cons b buf =>
      have hlines := dataLines_cons depth buf.length b buf
      rw [← length_cons (a := b)] at hlines
      obtain ⟨line, hline⟩ : ∃ line, base64encode ((b :: buf).take (maxread depth)) = line :=
        ⟨_, rfl⟩
      obtain ⟨rest, hrest⟩ : ∃ rest,
          dataLines depth buf.length ((b :: buf).drop (maxread depth)) = rest := ⟨_, rfl⟩
      rw [hline, hrest] at hlines
      have hne : line ≠ [] := by
        rw [← hline]
        have hpos := maxread_pos depth
        obtain ⟨m, hm⟩ := Nat.exists_eq_succ_of_ne_zero (n := maxread depth) (by omega)
        rw [hm, take_succ_cons]
        match List.take m buf with
        | [] => simp [base64encode, encodeGroup]
        | [_] => simp [base64encode, encodeGroup]
        | _ :: _ :: _ => simp [base64encode, encodeGroup]
      obtain ⟨x, line', rfl⟩ := exists_cons_of_ne_nil hne
      have hplain := base64encode_plain ((b :: buf).take (maxread depth))
      rw [hline] at hplain
      have hdecode := decodeLoop_dataLines depth (b :: buf) (tabs depth) [] (Nat.le_refl _)
      rw [hlines] at hdecode
      refine ⟨[10] ++ tabs (indentOf depth), x :: line' ++ [10] ++ rest ++ tabs depth,
        by rw [hlines]; simp, ?_, ?_, ?_, by simp, ?_⟩
      · intro c hc
        rcases mem_append.mp hc with hc | hc
        · rw [mem_singleton.mp hc]
          decide
        · exact htabs _ c hc
      · intro c hc
        simp only [cons_append, List.head?_cons, Option.mem_def, Option.some.injEq] at hc
        rw [← hc]
        exact (hplain x mem_cons_self).2
      · intro c hc
        simp only [mem_append, mem_singleton] at hc
        rcases hc with ((hc | rfl) | hc) | hc
        · exact (hplain c hc).1
        · decide
        · exact dataLines_ne_lt depth buf.length _ c (by rw [hrest]; exact hc)
        · rw [tabs_blank depth c hc]
          decide
      · have hend : decodeLoop (tabs depth) [] ([] ++ (b :: buf)) = b :: buf := by
          have h0 := decodeLoop_blank (w := tabs depth)
            (fun c hc => by rw [tabs_blank _ c hc]; decide) [] [] ([] ++ (b :: buf))
          rw [append_nil] at h0
          exact h0
        rw [hend, append_assoc, append_assoc, append_assoc,
          decodeLoop_blank (fun c hc => by rw [tabs_blank _ c hc]; decide)] at hdecode
        simpa using hdecode
  have htext : text.drop pos = w ++ (body ++ ch '<' :: ch '/' :: (lit "data" ++ ch '>' :: s)) := by
    rw [h, hsplit]
    simp [closeTag]
  have hparts := getTextParts_skip (by decide) hw hbody hhead htext
  have hlen : (lit "data").length = 4 := rfl
  have hend : pos + w.length + body.length + 2 + 4 + 1 =
      pos + ([10] ++ dataLines depth buf.length buf ++ tabs depth).length +
        (closeTag "data").length := by
    rw [hsplit, length_append]
    simp only [closeTag, length_cons, length_append, hlen, length_nil]
    omega
  rw [hlen, hend] at hparts
  rw [readContent, if_neg (by decide), if_neg (by decide), if_neg (by decide), if_neg (by decide),
    if_neg (by decide), if_neg (by decide), if_neg (by decide), if_pos rfl, textContent]
  by_cases hempty : body = []
  · obtain rfl := hnil hempty
    rw [plainParts, if_pos hempty] at hparts
    simp only [Bool.false_eq_true, if_false, hparts, ok_bind]
    rfl
  · have hcontent := textPartsGetContent_plain (drop_add_of_drop htext)
    have hpos : body.length > 0 := length_pos_iff.mpr hempty
    rw [plainParts_of_ne_nil hempty] at hparts
    simp only [Bool.false_eq_true, if_false, hparts, ok_bind, hcontent, dataData, take_left,
      if_pos hpos, base64decode, hdecode, if_pos hbuf]

/-! ## The prolog -/

/-- The words of the prolog. -/
def xmlWords : List UInt8 := lit "?xml version=\"1.0\" encoding=\"UTF-8\""

def publicId : List UInt8 := lit "\"-//Apple//DTD PLIST 1.0//EN\""

def systemId : List UInt8 := lit "\"http://www.apple.com/DTDs/PropertyList-1.0.dtd\""

theorem xmlLine_eq : xmlLine = ch '<' :: (xmlWords ++ lit "?>") := by decide

theorem doctypeLine_eq :
    doctypeLine = ch '<' :: (lit "!DOCTYPE" ++ 32 :: (lit "plist" ++ 32 :: (lit "PUBLIC" ++
      32 :: (publicId ++ 32 :: (systemId ++ [ch '>']))))) := by rfl

theorem skipInstruction_xml (hs : s ≠ []) (h : text.drop pos = xmlWords ++ (lit "?>" ++ s)) :
    skipInstruction text pos = .ok (some (pos + xmlWords.length + 2)) := by
  have hscan : scan (lit "?>").isPrefixOf false (text.drop pos) = xmlWords.length := by
    rw [h]
    rfl
  have hfound := drop_add_of_drop h
  have hlen := length_of_drop hfound (by simp [hs])
  have hpos : 0 < s.length := length_pos_iff.mpr hs
  have hstr : (lit "?>").length = 2 := rfl
  rw [length_append, hstr] at hlen
  have hfind : findStr text (lit "?>") true pos = .ok (pos + xmlWords.length) := by
    rw [findStr, findStrLoop_scan (by decide) (by rw [hscan, hstr]; omega) (by omega), hscan]
  have hcmp : strncmp text (pos + xmlWords.length) (lit "?>") 2 = .ok true := by
    rw [← hstr, strncmp_eq text (by decide) (by rw [hstr]; omega), hfound,
      decide_eq_true (prefix_append _ _)]
  rw [skipInstruction, findEnd, hfind, ok_bind, hstr, if_neg (by omega), hcmp]
  rfl

/-- What `find_next` looks for in a `DOCTYPE`. -/
def doctypeEnd : List UInt8 := [32, 9, 13, 10, ch '[', ch '>']

theorem doctypeLoop_word (h : text.drop pos = a ++ 32 :: b) (hb : b.head? = some c)
    (hc : isBlank c = false) (hscan : scan (stopsAt doctypeEnd) false (a ++ 32 :: b) = a.length) :
    doctypeLoop text (fuel + 1) pos = doctypeLoop text fuel (pos + a.length + 1) := by
  have hblank := drop_add_of_drop h
  have hlt := lt_length_of_drop hblank
  have hfind : findNext text [32, 9, 13, 10, ch '[', ch '>'] true pos = .ok (pos + a.length) := by
    have hfind := findNext_scan doctypeEnd (by decide) (show pos ≤ text.length by omega)
    rw [h, hscan] at hfind
    exact hfind
  obtain ⟨rest, rfl⟩ : ∃ rest, b = c :: rest := List.head?_eq_some_iff.mp hb
  have hspan : span text isBlank (pos + a.length) = 1 :=
    span_of_drop (a := [32]) hblank (by decide) (by simp [hc])
  rw [doctypeLoop, if_pos (by omega), hfind, ok_bind, if_neg (by omega), byteAt_of_drop hblank,
    ok_bind, if_neg (by decide), if_neg (by decide), parseSkipWs_eq, ok_bind, hspan]

theorem doctypeLoop_end (h : text.drop pos = a ++ ch '>' :: b)
    (hscan : scan (stopsAt doctypeEnd) false (a ++ ch '>' :: b) = a.length) :
    doctypeLoop text (fuel + 1) pos = .ok (some (pos + a.length + 1, false)) := by
  have hgt := drop_add_of_drop h
  have hlt := lt_length_of_drop hgt
  have hfind : findNext text [32, 9, 13, 10, ch '[', ch '>'] true pos = .ok (pos + a.length) := by
    have hfind := findNext_scan doctypeEnd (by decide) (show pos ≤ text.length by omega)
    rw [h, hscan] at hfind
    exact hfind
  rw [doctypeLoop, if_pos (by omega), hfind, ok_bind, if_neg (by omega), byteAt_of_drop hgt,
    ok_bind, if_neg (by decide), if_pos rfl]

theorem skipSpecial_doctype
    (h : text.drop pos = lit "!DOCTYPE" ++ 32 :: (lit "plist" ++ 32 :: (lit "PUBLIC" ++
      32 :: (publicId ++ 32 :: (systemId ++ ch '>' :: s))))) :
    skipSpecial text pos = .ok (some (pos + 101)) := by
  have hstr : (lit "!DOCTYPE").length = 8 := rfl
  have h1 := drop_add_of_drop h
  rw [hstr] at h1
  have h2 := drop_succ_of_drop h1
  have h3 := drop_succ_of_drop (drop_add_of_drop h2)
  have h4 := drop_succ_of_drop (drop_add_of_drop h3)
  have h5 := drop_succ_of_drop (drop_add_of_drop h4)
  have hlt := lt_length_of_drop (drop_add_of_drop h5)
  have hcomment : startsWith text pos (lit "!--") = .ok false := by
    have hstr : (lit "!--").length = 3 := rfl
    rw [startsWith, hstr, if_pos (by omega), ← hstr, strncmp_eq text (by decide)
      (by rw [hstr]; omega), h]
    rfl
  have hdoctype : startsWith text pos (lit "!DOCTYPE") = .ok true := by
    rw [startsWith, hstr, if_pos (by omega), ← hstr, strncmp_eq text (by decide)
      (by rw [hstr]; omega), h, decide_eq_true (prefix_append _ _)]
  -- four words and the end
  obtain ⟨m, hm⟩ : ∃ m, text.length + 1 = m + 1 + 1 + 1 + 1 + 1 := ⟨text.length - 4, by omega⟩
  have hskip : skipDoctype text (pos + 8) = .ok (some (pos + 101)) := by
    rw [skipDoctype, hm, doctypeLoop_word (a := []) (c := ch 'p') h1 rfl rfl rfl, length_nil,
      Nat.add_zero, doctypeLoop_word (c := ch 'P') h2 rfl rfl rfl,
      doctypeLoop_word (c := quote) h3 rfl rfl rfl, doctypeLoop_word (c := quote) h4 rfl rfl rfl,
      doctypeLoop_end h5 rfl, ok_bind]
    rfl
  rw [skipSpecial, hcomment, ok_bind, if_neg (by simp), hdoctype, ok_bind, if_pos rfl, hskip]

theorem readTag_plist
    (h : text.drop pos = lit "plist" ++ 32 :: (lit "version=\"1.0\"" ++ ch '>' :: s)) :
    readTag text pos = .ok (some (⟨lit "plist", 5, false⟩, pos + 20)) := by
  have hlen : (lit "plist").length = 5 := rfl
  have hlen' : (lit "version=\"1.0\"").length = 13 := rfl
  have h1 := drop_add_of_drop h
  have h2 := drop_add_of_drop (drop_succ_of_drop h1)
  rw [hlen] at h1 h2
  rw [hlen'] at h2
  have hend : findTagEnd text (pos + (lit "plist").length) = .ok (pos + 19) := by
    have hlt := lt_length_of_drop h1
    rw [hlen, findTagEnd, byteAt_of_drop h1, ok_bind, if_pos (by decide),
      findNext_scan _ (by decide) (by omega), h1]
    rfl
  have hquote : text.drop (pos + 18) = quote :: ch '>' :: s := by
    have hsplit : text.drop (pos + 6) = lit "version=\"1.0" ++ quote :: ch '>' :: s :=
      drop_succ_of_drop h1
    exact drop_add_of_drop hsplit
  rw [readTag_name (by decide) h (by decide) hend h2, finishTag]
  have hidx : pos + 19 - 1 = pos + 18 := by omega
  rw [hidx, byteAt_of_drop hquote, ok_bind, if_neg (by decide), hlen, Nat.add_sub_cancel_left]
  rfl

end

end IDeviceStack.Libplist.Xplist
