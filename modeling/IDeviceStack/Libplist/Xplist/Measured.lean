/-
# `Libplist.Xplist.Measured` — reading tags and their content

What the functions below `node_from_xml` do on any text: they return, they move on,
and not over the end.  There is one condition.  The lengths of tags, entities and
decoded data are kept in `int`s although a text may have `2 ^ 32` bytes, and where such
a length does not fit the code leaves its buffers.  `Measured` says that a tag and its
content have nothing of that length.
-/
import IDeviceStack.Libplist.Xplist.Parse

namespace IDeviceStack.Libplist.Xplist

open List

/-- No entity in `s` that stands for something is longer than an `int`, with two more bytes. -/
def ShortEntities (s : List UInt8) : Prop :=
  ∀ a b c, s = a ++ ch '&' :: (b ++ ch ';' :: c) → ch ';' ∉ b →
    (entityBytes (b ++ ch ';' :: c) b.length).isSome → b.length + 2 < 2 ^ 31

/-- Everything that the code measures with an `int` in the tag behind the `<` at `p - 1` is shorter
than `2 ^ 31` bytes: its name, the whole tag when it ends in `/>`, the entities in the content of a
string or a key, and what the content of a `<data>` decodes to. -/
structure Measured (text : List UInt8) (p : Nat) : Prop where
  name : p + span text (· ∉ tagEnd) p < text.length → span text (· ∉ tagEnd) p + 1 < 2 ^ 31
  tag : ∀ e, findTagEnd text (p + span text (· ∉ tagEnd) p) = .ok e →
    text[e - 1]? = some (ch '/') → text[e]? = some (ch '>') → e - p - 1 < 2 ^ 31
  entity : ∀ tag pos parts pos', readTag text p = .ok (some (tag, pos)) → tag.isEmpty = false →
    tag.name = lit "string" ∨ tag.name = lit "key" →
    getTextParts text tag.name tag.len false pos = .ok (some parts, pos') →
    ∀ tp ∈ parts, tp.isCdata = false →
      ShortEntities (strncpy ((text.drop tp.begin).take tp.length))
  data : ∀ tag pos tp rest pos' content, readTag text p = .ok (some (tag, pos)) →
    tag.isEmpty = false → tag.name = lit "data" →
    getTextParts text tag.name tag.len true pos = .ok (some (tp :: rest), pos') →
    textPartsGetContent text tp rest = .ok (some content) →
    (base64decode (content.1.take tp.length)).length < 2 ^ 31

section

variable {text : List UInt8} {pos : Nat}

/-! ## Text parts -/

/-- A part of the text, with a byte behind it. -/
def TextPart.Inside (text : List UInt8) (tp : TextPart) : Prop := tp.begin + tp.length < text.length

/-- What a turn of the loop of `get_text_parts` may come to, from `p` on. -/
def PartStep.Good (text : List UInt8) (parts : List TextPart) (p : Nat) : PartStep → Prop
  | .more parts' pos => p < pos ∧ pos ≤ text.length ∧
      ((∀ tp ∈ parts, tp.Inside text) → ∀ tp ∈ parts', tp.Inside text)
  | .close parts' p' q pos => parts' = parts ∧ p' = p ∧ p ≤ q ∧ q < pos ∧ pos < text.length
  | .fail pos => p ≤ pos ∧ pos ≤ text.length

variable {parts : List TextPart} {p q : Nat}

theorem addText_inside (hq : q < text.length) (h : ∀ tp ∈ parts, tp.Inside text) :
    ∀ tp ∈ addText parts p q, tp.Inside text := by
  intro tp htp
  rw [addText] at htp
  split at htp
  · rcases mem_append.mp htp with htp | htp
    · exact h tp htp
    · rw [mem_singleton.mp htp, TextPart.Inside]
      simp only
      omega
  · exact h tp htp

theorem badTag_good (parts : List TextPart) (hp : p ≤ pos) (hpos : pos ≤ text.length) :
    ∃ r, badTag text pos = .ok r ∧ r.Good text parts p := by
  obtain ⟨pos', hrun, hle, hend, -⟩ := findNext_spec text nameEnd true hpos
  exact ⟨.fail pos', by rw [badTag, hrun]; rfl, by omega, hend⟩

theorem textCdata_good (parts : List TextPart) (hp : p ≤ q) (hq : q < pos)
    (hpos : pos ≤ text.length) :
    ∃ r, textCdata text parts p q pos = .ok r ∧ r.Good text parts p := by
  rw [textCdata]
  split
  · exact ⟨_, rfl, by omega, hpos⟩
  · rename_i hlt
    obtain ⟨b, hb⟩ := strncmp_spec text (lit "CDATA[") (show pos + 6 ≤ text.length by omega)
    rw [hb, ok_bind]
    cases b with
    | false => exact badTag_good parts (by omega) hpos
    | true =>
      obtain ⟨r, hr, hle⟩ := findEnd_spec text (lit "]]>") false (show pos + 6 ≤ text.length by omega)
      simp only [if_true, hr, ok_bind]
      cases r with
      | none => exact ⟨_, rfl, by omega, hpos⟩
      | some e =>
        obtain ⟨hle, hend⟩ := hle e rfl
        have hlen : (lit "]]>").length = 3 := rfl
        rw [hlen] at hend
        refine ⟨_, rfl, by omega, hend, fun hin tp htp => ?_⟩
        rcases mem_append.mp htp with htp | htp
        · exact addText_inside (by omega) hin tp htp
        · rw [mem_singleton.mp htp, TextPart.Inside]
          simp only
          omega

theorem textSpecial_good (parts : List TextPart) (hp : p ≤ q) (hq : q < pos)
    (hpos : pos ≤ text.length) :
    ∃ r, textSpecial text parts p q pos = .ok r ∧ r.Good text parts p := by
  rw [textSpecial]
  split
  · exact ⟨_, rfl, by omega, hpos⟩
  · rename_i hlt
    have h0 : pos < text.length := by omega
    have h1 : pos + 1 < text.length := by omega
    rw [byteAt_eq h0, ok_bind, byteAt_eq h1, ok_bind]
    split
    · obtain ⟨r, hr, hle⟩ := findEnd_spec text (lit "-->") false (show pos + 2 ≤ text.length by omega)
      rw [hr, ok_bind]
      cases r with
      | none => exact ⟨_, rfl, by omega, hpos⟩
      | some e =>
        obtain ⟨hle, hend⟩ := hle e rfl
        have hlen : (lit "-->").length = 3 := rfl
        rw [hlen] at hend
        refine ⟨_, rfl, by omega, hend, fun hin tp htp => ?_⟩
        rcases mem_append.mp htp with htp | htp
        · exact hin tp htp
        · rw [mem_singleton.mp htp, TextPart.Inside]
          simp only
          omega
    · split
      · exact textCdata_good parts hp (by omega) (by omega)
      · exact badTag_good parts (by omega) hpos

theorem textPartStep_good (parts : List TextPart) (hp : p ≤ text.length) :
    ∃ r, textPartStep text parts p = .ok r ∧ r.Good text parts p := by
  have hle := span_le text (· ≠ ch '<') p
  rw [textPartStep, findChar_eq, ok_bind]
  obtain ⟨q, hq⟩ : ∃ q, p + span text (· ≠ ch '<') p = q := ⟨_, rfl⟩
  rw [hq] at hle ⊢
  split
  · exact ⟨_, rfl, by omega, by omega⟩
  · rename_i hlt
    have hqlt : q < text.length := by omega
    rw [byteAt_eq hqlt, ok_bind]
    split
    · exact ⟨_, rfl, by omega, by omega⟩
    · split
      · exact ⟨_, rfl, by omega, by omega⟩
      · rename_i hlt1
        have hqlt1 : q + 1 < text.length := by omega
        rw [byteAt_eq hqlt1, ok_bind]
        split
        · exact textSpecial_good parts (by omega) (by omega) (by omega)
        · split
          · exact ⟨_, rfl, rfl, rfl, by omega, by omega, hqlt1⟩
          · exact badTag_good parts (by omega) (by omega)

variable {s : List UInt8}

/-- What `get_text_parts` comes to. -/
def PartsGood (text : List UInt8) (pos : Nat) (r : Option (List TextPart) × Nat) : Prop :=
  pos ≤ r.2 ∧ r.2 ≤ text.length ∧ ∀ parts, r.1 = some parts → ∀ tp ∈ parts, tp.Inside text

theorem closingTag_good (tag : List UInt8) (tagLen : Nat) (hin : ∀ tp ∈ parts, tp.Inside text)
    (hq : q < pos) (hpos : pos ≤ text.length) :
    ∃ r, closingTag text tag tagLen parts p q pos = .ok r ∧ PartsGood text pos r := by
  have hfail (pos' : Nat) (h1 : pos ≤ pos') (h2 : pos' ≤ text.length) :
      PartsGood text pos (none, pos') := ⟨h1, h2, fun _ h => by cases h⟩
  rw [closingTag]
  split
  · exact ⟨_, rfl, hfail pos (Nat.le_refl _) hpos⟩
  · rename_i hlt
    obtain ⟨b, hb⟩ := strncmp_spec text tag (show pos + tagLen ≤ text.length by omega)
    rw [hb, ok_bind]
    cases b with
    | false => exact ⟨_, rfl, hfail pos (Nat.le_refl _) hpos⟩
    | true =>
      have hle := span_le text isBlank (pos + tagLen)
      simp only [if_true, parseSkipWs_eq, ok_bind]
      obtain ⟨e, he⟩ : ∃ e, pos + tagLen + span text isBlank (pos + tagLen) = e := ⟨_, rfl⟩
      rw [he] at hle ⊢
      split
      · exact ⟨_, rfl, hfail e (by omega) (by omega)⟩
      · have helt : e < text.length := by omega
        rw [byteAt_eq helt, ok_bind]
        split
        · exact ⟨_, rfl, hfail e (by omega) (by omega)⟩
        · refine ⟨_, rfl, ?_, ?_, fun parts' h => ?_⟩
          · show pos ≤ e + 1
            omega
          · exact helt
          · cases h
            exact addText_inside (by omega) hin

theorem textPartsLoop_good (tag : List UInt8) (tagLen : Nat) {fuel : Nat}
    (hin : ∀ tp ∈ parts, tp.Inside text) (hpos : pos ≤ text.length)
    (hfuel : text.length - pos < fuel) :
    ∃ r, textPartsLoop text tag tagLen fuel parts pos = .ok r ∧ PartsGood text pos r := by
  induction fuel generalizing parts pos with
  | zero => omega
  | succ fuel ih =>
    obtain ⟨step, hstep, hgood⟩ := textPartStep_good parts hpos
    rw [textPartsLoop, hstep, ok_bind]
    cases step with
    | more parts' pos' =>
      obtain ⟨hlt, hend, hin'⟩ := hgood
      obtain ⟨r, hr, hle, hrest⟩ := ih (hin' hin) hend (by omega)
      exact ⟨r, hr, by omega, hrest⟩
    | close parts' p q pos' =>
      obtain ⟨rfl, rfl, hpq, hq, hlt⟩ := hgood
      obtain ⟨r, hr, hle, hrest⟩ := closingTag_good (p := p) tag tagLen hin
        (show q < pos' + 1 by omega) (by omega)
      exact ⟨r, hr, by omega, hrest⟩
    | fail pos' => exact ⟨_, rfl, hgood.1, hgood.2, fun _ h => by cases h⟩

theorem getTextParts_good (tag : List UInt8) (tagLen : Nat) (skipWs : Bool)
    (hpos : pos ≤ text.length) :
    ∃ r, getTextParts text tag tagLen skipWs pos = .ok r ∧ PartsGood text pos r := by
  have hle := span_le text isBlank pos
  obtain ⟨pos', hskip, hpos', hend⟩ : ∃ pos', (if skipWs = true then parseSkipWs text pos
      else .ok pos) = .ok pos' ∧ pos ≤ pos' ∧ pos' ≤ text.length := by
    cases skipWs with
    | true => exact ⟨_, parseSkipWs_eq text pos, by omega, by omega⟩
    | false => exact ⟨pos, rfl, Nat.le_refl _, hpos⟩
  obtain ⟨r, hr, hle', hrest⟩ := textPartsLoop_good tag tagLen
    (fun (tp : TextPart) (htp : tp ∈ []) => by cases htp) hend
    (show text.length - pos' < text.length + 1 by omega)
  refine ⟨r, ?_, by omega, hrest⟩
  cases skipWs with
  | true =>
    simp only [if_true] at hskip
    simp only [getTextParts, if_true, hskip, ok_bind, hr]
  | false =>
    cases hskip
    simp only [getTextParts, Bool.false_eq_true, if_false, ok_bind, hr]

/-! ## Entities -/

theorem ShortEntities.suffix {a : List UInt8} (h : ShortEntities (a ++ s)) : ShortEntities s := by
  intro x b c hs hb
  exact h (a ++ x) b c (by rw [hs, append_assoc]) hb

theorem takeWhile_split {p : UInt8 → Bool} (h : (s.takeWhile p).length < s.length) :
    ∃ x c, s = s.takeWhile p ++ x :: c ∧ p x = false := by
  have hsplit := takeWhile_append_dropWhile (p := p) (l := s)
  cases hd : s.dropWhile p with
  | nil =>
    rw [hd, append_nil] at hsplit
    rw [hsplit] at h
    omega
  | cons x c =>
    have hnot := List.head?_dropWhile_not p s
    rw [hd] at hnot
    exact ⟨x, c, by rw [← hd, hsplit], hnot⟩

theorem unescapeLoop_ok {fuel : Nat} (done : List UInt8) (hs : ShortEntities s)
    (hfuel : s.length < fuel) : ∃ r, unescapeLoop fuel done s = .ok r := by
  induction fuel generalizing done s with
  | zero => omega
  | succ fuel ih =>
    match s, hs, hfuel with
    | [], _, _ => exact ⟨_, rfl⟩
    | [c], _, _ => exact ⟨_, rfl⟩
    | c :: d :: s, hs, hfuel =>
      rw [length_cons] at hfuel
      rw [unescapeLoop]
      split
      · rename_i hc
        obtain ⟨n, hn⟩ : ∃ n, ((d :: s).takeWhile (· ≠ ch ';')).length = n := ⟨_, rfl⟩
        simp only [hn]
        split
        · exact ⟨_, rfl⟩
        · rename_i hlt
          obtain ⟨x, rest, hsplit, hx⟩ := takeWhile_split (p := (· ≠ ch ';')) (s := d :: s)
            (by rw [hn]; omega)
          obtain rfl : x = ch ';' := by simpa using hx
          split
          · cases hbytes : entityBytes (d :: s) n with
            | none => exact ⟨_, rfl⟩
            | some bytes =>
              have hshort : n + 2 < 2 ^ 31 := by
                rw [← hn]
                refine hs [] _ rest (by rw [nil_append, hc, ← hsplit]) (fun hmem => ?_) ?_
                · simpa using mem_takeWhile_imp hmem
                · rw [← hsplit, hn, hbytes]
                  rfl
              dsimp only
              rw [if_pos hshort]
              refine ih (done ++ bytes) ?_ ?_
              · have htail := ShortEntities.suffix (a := c :: (d :: s).take (n + 1))
                  (s := (d :: s).drop (n + 1)) (by
                    rw [cons_append, take_append_drop]
                    exact hs)
                exact htail
              · rw [length_drop]
                omega
          · exact ⟨_, rfl⟩
      · exact ih (done ++ [c]) (ShortEntities.suffix (a := [c]) hs) (by omega)

theorem copyParts_ok (unescEntities : Bool)
    (hin : ∀ tp ∈ parts, tp.Inside text)
    (hshort : unescEntities = true → ∀ tp ∈ parts, tp.isCdata = false →
      ShortEntities (strncpy ((text.drop tp.begin).take tp.length))) :
    ∃ r, copyParts text unescEntities parts = .ok r := by
  induction parts with
  | nil => exact ⟨_, rfl⟩
  | cons tp parts ih =>
    have htp := hin tp mem_cons_self
    rw [TextPart.Inside] at htp
    obtain ⟨rest, hrest⟩ := ih (fun x hx => hin x (mem_cons_of_mem tp hx))
      fun h x hx => hshort h x (mem_cons_of_mem tp hx)
    obtain ⟨s, hs⟩ : ∃ s, copyPart text unescEntities tp = .ok s := by
      rw [copyPart, bytesAt, if_pos (by omega), ok_bind]
      split
      · rename_i hcond
        have hcond : tp.isCdata = false ∧ unescEntities = true := by simpa using hcond
        exact unescapeLoop_ok [] (hshort hcond.2 tp mem_cons_self hcond.1) (by omega)
      · exact ⟨_, rfl⟩
    rw [copyParts, hs, ok_bind]
    cases s with
    | none => exact ⟨_, rfl⟩
    | some s =>
      simp only [hrest, ok_bind]
      cases rest with
      | none => exact ⟨_, rfl⟩
      | some rest => exact ⟨_, rfl⟩

theorem textPartsGetContent_ok {tp : TextPart} {rest : List TextPart}
    (hin : ∀ x ∈ tp :: rest, x.Inside text) : ∃ r, textPartsGetContent text tp rest = .ok r := by
  have htp := hin tp mem_cons_self
  rw [TextPart.Inside] at htp
  obtain ⟨copy, hcopy⟩ := copyParts_ok false hin (by simp)
  rw [textPartsGetContent]
  split
  · rw [byteAt_eq htp]
    exact ⟨_, rfl⟩
  · rw [hcopy, ok_bind]
    cases copy with
    | none => exact ⟨_, rfl⟩
    | some s => exact ⟨_, rfl⟩

/-! ## Tags -/

theorem findTagEnd_spec (h : pos < text.length) :
    ∃ e, findTagEnd text pos = .ok e ∧ pos ≤ e ∧ e ≤ text.length := by
  rw [findTagEnd, byteAt_eq h, ok_bind]
  split
  · obtain ⟨e, he, hle, hend, -⟩ :=
      findNext_spec text [ch '<', ch '>'] true (show pos ≤ text.length by omega)
    exact ⟨e, he, hle, hend⟩
  · exact ⟨pos, rfl, Nat.le_refl _, by omega⟩

theorem readTag_spec (hm : Measured text p) :
    ∃ r, readTag text p = .ok r ∧ ∀ tag pos, r = some (tag, pos) → p < pos ∧ pos ≤ text.length := by
  have hname := hm.name
  have htag := hm.tag
  have hle := span_le text (· ∉ tagEnd) p
  rw [readTag, findNext_eq, ok_bind]
  obtain ⟨n, hn⟩ : ∃ n, span text (· ∉ tagEnd) p = n := ⟨_, rfl⟩
  rw [hn] at hname htag hle ⊢
  split
  · exact ⟨none, rfl, fun _ _ h => by cases h⟩
  · rename_i hlt
    have hqlt : p + n < text.length := by omega
    have hcopy : copyName text p (p + n - p) = .ok (strncpy ((text.drop p).take n)) := by
      rw [Nat.add_sub_cancel_left, copyName, if_pos (hname hqlt), bytesAt, if_pos (by omega)]
      rfl
    obtain ⟨e, he, hqe, hend⟩ := findTagEnd_spec hqlt
    rw [hcopy, ok_bind, he, ok_bind]
    split
    · exact ⟨none, rfl, fun _ _ h => by cases h⟩
    · have helt : e < text.length := by omega
      rw [byteAt_eq helt, ok_bind]
      split
      · exact ⟨none, rfl, fun _ _ h => by cases h⟩
      · rename_i hgt
        have hgt : text[e] = ch '>' := by simpa using hgt
        have helt' : e - 1 < text.length := by omega
        rw [finishTag, byteAt_eq helt', ok_bind]
        split
        · rename_i hslash
          have hshort : e - p - 1 < 2 ^ 31 := htag e he
            (by rw [List.getElem?_eq_getElem helt', hslash])
            (by rw [List.getElem?_eq_getElem helt, hgt])
          rw [if_pos hshort]
          exact ⟨_, rfl, fun tag pos h => by cases h; omega⟩
        · exact ⟨_, rfl, fun tag pos h => by cases h; omega⟩

/-! ## Content -/

/-- What a tag of that name may stand for, when the text behind it begins at `pos`. -/
def Content.Good (text name : List UInt8) (pos : Nat) : Content → Prop
  | .node _ pos' _ => pos ≤ pos' ∧ pos' ≤ text.length
  | .key _ pos' => pos ≤ pos' ∧ pos' ≤ text.length
  | .close pos' => pos' = pos ∧ name.headD 0 = ch '/'
  | .fail pos' => pos' ≤ text.length

theorem textContent_good (tag : Tag) (hpos : pos ≤ text.length) (emptyTag noText : XData)
    {full : TextPart → List UInt8 × Nat → Except Stop XData}
    (hfull : tag.isEmpty = false → ∀ tp rest pos' content,
      getTextParts text tag.name tag.len true pos = .ok (some (tp :: rest), pos') →
      textPartsGetContent text tp rest = .ok (some content) → ∃ data, full tp content = .ok data) :
    ∃ c, textContent text tag pos emptyTag noText full = .ok c ∧ c.Good text tag.name pos := by
  rw [textContent]
  split
  · exact ⟨_, rfl, Nat.le_refl _, hpos⟩
  · rename_i hfilled
    obtain ⟨⟨parts, pos'⟩, hparts, hle, hend, hin⟩ :=
      getTextParts_good tag.name tag.len true hpos
    rw [hparts, ok_bind]
    match parts, hparts, hin with
    | none, _, _ => exact ⟨_, rfl, hend⟩
    | some [], _, _ => exact ⟨_, rfl, hle, hend⟩
    | some (tp :: rest), hparts, hin =>
      obtain ⟨r, hr⟩ := textPartsGetContent_ok (hin _ rfl)
      simp only [hr, ok_bind]
      cases r with
      | none => exact ⟨_, rfl, hend⟩
      | some content =>
        obtain ⟨data, hdata⟩ := hfull (by simpa using hfilled) tp rest pos' content hparts hr
        simp only [hdata, ok_bind]
        exact ⟨_, rfl, hle, hend⟩

theorem booleanContent_good (tag : Tag) (hpos : pos ≤ text.length) (boolval : UInt8) :
    ∃ c, booleanContent text tag pos boolval = .ok c ∧ c.Good text tag.name pos := by
  rw [booleanContent]
  split
  · exact ⟨_, rfl, Nat.le_refl _, hpos⟩
  · obtain ⟨⟨parts, pos'⟩, hparts, hle, hend, -⟩ := getTextParts_good tag.name tag.len true hpos
    rw [hparts, ok_bind]
    exact ⟨_, rfl, hle, hend⟩

theorem stringContent_good (tag : Tag) (hpos : pos ≤ text.length) (wantsKey : Bool)
    (hshort : tag.isEmpty = false → ∀ parts pos',
      getTextParts text tag.name tag.len false pos = .ok (some parts, pos') →
      ∀ tp ∈ parts, tp.isCdata = false →
        ShortEntities (strncpy ((text.drop tp.begin).take tp.length))) :
    ∃ c, stringContent text tag pos wantsKey = .ok c ∧ c.Good text tag.name pos := by
  rw [stringContent]
  split
  · exact ⟨_, rfl, Nat.le_refl _, hpos⟩
  · rename_i hfilled
    obtain ⟨⟨parts, pos'⟩, hparts, hle, hend, hin⟩ :=
      getTextParts_good tag.name tag.len false hpos
    rw [hparts, ok_bind]
    cases parts with
    | none => exact ⟨_, rfl, hend⟩
    | some parts =>
      obtain ⟨r, hr⟩ := copyParts_ok true (hin _ rfl) fun _ =>
        hshort (by simpa using hfilled) parts pos' hparts
      simp only [hr, ok_bind]
      cases r with
      | none => exact ⟨_, rfl, hend⟩
      | some str =>
        simp only
        split
        · exact ⟨_, rfl, hle, hend⟩
        · exact ⟨_, rfl, hle, hend⟩

theorem readContent_good (hm : Measured text p) (conv : Conv) {tag : Tag}
    (htag : readTag text p = .ok (some (tag, pos))) (hpos : pos ≤ text.length) (wantsKey : Bool) :
    ∃ c, readContent conv text tag pos wantsKey = .ok c ∧ c.Good text tag.name pos := by
  rw [readContent]
  by_cases hdict : tag.name = lit "dict"
  · rw [if_pos hdict]
    exact ⟨_, rfl, Nat.le_refl _, hpos⟩
  rw [if_neg hdict]
  by_cases harray : tag.name = lit "array"
  · rw [if_pos harray]
    exact ⟨_, rfl, Nat.le_refl _, hpos⟩
  rw [if_neg harray]
  by_cases hinteger : tag.name = lit "integer"
  · rw [if_pos hinteger]
    exact textContent_good tag hpos _ _ fun _ _ _ _ _ _ _ => ⟨_, rfl⟩
  rw [if_neg hinteger]
  by_cases hreal : tag.name = lit "real"
  · rw [if_pos hreal]
    exact textContent_good tag hpos _ _ fun _ _ _ _ _ _ _ => ⟨_, rfl⟩
  rw [if_neg hreal]
  by_cases htrue : tag.name = lit "true"
  · rw [if_pos htrue]
    exact booleanContent_good tag hpos 1
  rw [if_neg htrue]
  by_cases hfalse : tag.name = lit "false"
  · rw [if_pos hfalse]
    exact booleanContent_good tag hpos 0
  rw [if_neg hfalse]
  by_cases hstring : tag.name = lit "string" ∨ tag.name = lit "key"
  · rw [if_pos hstring]
    exact stringContent_good tag hpos wantsKey fun hfilled parts pos' hparts =>
      hm.entity tag pos parts pos' htag hfilled hstring hparts
  rw [if_neg hstring]
  by_cases hdata : tag.name = lit "data"
  · rw [if_pos hdata]
    refine textContent_good tag hpos _ _ fun hfilled tp rest pos' content hparts hcontent => ?_
    have hshort := hm.data tag pos tp rest pos' content htag hfilled hdata hparts hcontent
    rw [dataData]
    refine ⟨_, if_pos ?_⟩
    split
    · exact hshort
    · simp
  rw [if_neg hdata]
  by_cases hdate : tag.name = lit "date"
  · rw [if_pos hdate]
    exact textContent_good tag hpos _ _ fun _ _ _ _ _ _ _ => ⟨_, rfl⟩
  rw [if_neg hdate]
  split
  · rename_i hslash
    exact ⟨_, rfl, rfl, hslash⟩
  · exact ⟨_, rfl, Nat.le_refl _⟩

/-! ## Short texts -/

theorem strncpy_length (s : List UInt8) : (strncpy s).length = s.length := by
  have hle := ( takeWhile_prefix (· ≠ 0) (l := s)).length_le
  rw [strncpy, length_append, length_replicate, cstr]
  omega

theorem textPartsGetContent_length_le {tp : TextPart} {rest : List TextPart}
    {content : List UInt8 × Nat} (h : textPartsGetContent text tp rest = .ok (some content)) :
    (content.1.take tp.length).length ≤ text.length := by
  rw [length_take]
  rw [textPartsGetContent] at h
  by_cases hrest : rest = []
  · rw [if_pos hrest] at h
    cases hbyte : byteAt text (tp.begin + tp.length) with
    | error stop =>
      rw [hbyte] at h
      cases h
    | ok c =>
      rw [hbyte] at h
      cases h
      rw [length_drop]
      omega
  · rw [if_neg hrest] at h
    by_cases hin : tp.begin + tp.length ≤ text.length
    · omega
    · rw [copyParts, copyPart, bytesAt, if_neg hin] at h
      cases h

/-- **Short texts are measured.**  Below 2 GiB every length fits. -/
theorem Measured.of_length (h : text.length < 2 ^ 31) (p : Nat) : Measured text p where
  name _ := by omega
  tag e _ _ he := by
    have hlt := (List.getElem?_eq_some_iff.mp he).1
    omega
  entity _ _ _ _ _ _ _ _ tp _ _ := by
    intro a b c hs _
    have hlen := congrArg List.length hs
    simp only [strncpy_length, length_take, length_drop, length_append, length_cons] at hlen
    omega
  data _ _ tp _ _ content _ _ _ _ hcontent := by
    have hle := base64decode_length_le (content.1.take tp.length)
    have hle' := textPartsGetContent_length_le hcontent
    omega

end

end IDeviceStack.Libplist.Xplist
