/-
# `Libplist.Xplist.Parts` — text with comments and `CDATA`

What stands between two tags is text with comments and `CDATA` blocks in it.
`get_text_parts` makes a list of its stretches: a comment closes the stretch before it,
even if that is empty, and a block becomes one of its own.

**Proved here.**  `getTextParts_body`, `textPartsGetContent_shows`, `copyParts_shows`.
-/
import IDeviceStack.Libplist.Xplist.Measured
import IDeviceStack.Libplist.Xplist.Reread

namespace IDeviceStack.Libplist.Xplist

open List

/-! ## Text -/

inductive Item where
  | comment (c : List UInt8)
  | cdata (d : List UInt8)

def Item.bytes : Item → List UInt8
  | .comment c => lit "<!--" ++ c ++ lit "-->"
  | .cdata d => lit "<![CDATA[" ++ d ++ lit "]]>"

/-- The end of an item is nowhere in it. -/
def Item.Closed : Item → Prop
  | .comment c => ¬ lit "-->" <:+: c
  | .cdata d => ¬ lit "]]>" <:+: d

/-- A text: `t`, and items with more text behind each. -/
def bodyBytes (t : List UInt8) : List (Item × List UInt8) → List UInt8
  | [] => t
  | (item, t') :: items => t ++ (item.bytes ++ bodyBytes t' items)

def BodyOk (t : List UInt8) (items : List (Item × List UInt8)) : Prop :=
  (∀ c ∈ t, c ≠ ch '<') ∧ ∀ p ∈ items, p.1.Closed ∧ ∀ c ∈ p.2, c ≠ ch '<'

/-- A part, as what it shows. -/
structure Part where
  bytes : List UInt8
  isCdata : Bool
  deriving DecidableEq

/-- Text before a `CDATA` block or a closing tag. -/
def textPart (t : List UInt8) : List Part := if t = [] then [] else [⟨t, false⟩]

/-- The parts of a text up to an item, and the item. -/
def itemParts (t : List UInt8) : Item → List Part
  | .comment _ => [⟨t, false⟩]
  | .cdata d => textPart t ++ [⟨d, true⟩]

/-- The parts of a text. -/
def partsOf (t : List UInt8) : List (Item × List UInt8) → List Part
  | [] => textPart t
  | (item, t') :: items => itemParts t item ++ partsOf t' items

variable {a : List UInt8}

/-- The part `tp` of the text shows `p`, and behind it there is a `<` or a `]`. -/
def Shows (text : List UInt8) (tp : TextPart) (p : Part) : Prop :=
  (∃ c r, text.drop tp.begin = p.bytes ++ c :: r ∧ (c = ch '<' ∨ c = ch ']')) ∧
    tp.length = p.bytes.length ∧ tp.isCdata = p.isCdata

section

variable {text : List UInt8} {pos : Nat}

/-! ## Ends -/

theorem findStrLoop_first {str r : List UInt8} (hstr : NulFree str) (hr : r ≠ [])
    (hfirst : ∀ i < a.length, ¬ str <+: (a ++ (str ++ r)).drop i) {fuel : Nat}
    (hfuel : a.length < fuel) (h : text.drop pos = a ++ (str ++ r)) :
    findStrLoop text str false fuel pos = .ok (pos + a.length) := by
  induction fuel generalizing a pos with
  | zero => omega
  | succ fuel ih =>
    have hne : a ++ (str ++ r) ≠ [] := by simp [hr]
    have hlen := length_of_drop h hne
    have hpos := length_pos_iff.mpr hr
    rw [length_append, length_append] at hlen
    rw [findStrLoop, if_pos (by omega), strncmp_eq text hstr (by omega), ok_bind, h]
    cases a with
    | nil =>
      rw [nil_append, decide_eq_true (prefix_append str r)]
      rfl
    | cons c a =>
      have hhere : ¬ str <+: c :: a ++ (str ++ r) := hfirst 0 (Nat.succ_pos _)
      rw [length_cons] at hfuel hfirst
      rw [decide_eq_false hhere, passQuoted, byteAt_of_drop h]
      simp only [Bool.false_eq_true, if_false, ok_bind, false_and, if_true]
      rw [ih (a := a) (fun i hi => hfirst (i + 1) (by omega)) (by omega) (drop_succ_of_drop h),
        length_cons]
      congr 1
      omega

theorem not_prefix_before {x : UInt8} (hx : x ≠ ch '>') (ha : ¬ [x, x, ch '>'] <:+: a)
    (r : List UInt8) {i : Nat} (hi : i < a.length) :
    ¬ [x, x, ch '>'] <+: (a ++ ([x, x, ch '>'] ++ r)).drop i := by
  intro hp
  rw [drop_append_of_le_length (by omega)] at hp
  have hsuffix : a.drop i <:+ a := drop_suffix i a
  have hne : a.drop i ≠ [] := by
    rw [ne_eq, drop_eq_nil_iff]
    omega
  match hdrop : a.drop i with
  | [] => exact hne hdrop
  | [p] =>
    rw [hdrop] at hp
    have h := (cons_prefix_cons.mp (cons_prefix_cons.mp hp).2).2
    exact hx (cons_prefix_cons.mp h).1.symm
  | [p, q] =>
    rw [hdrop] at hp
    have h := (cons_prefix_cons.mp (cons_prefix_cons.mp hp).2).2
    exact hx (cons_prefix_cons.mp h).1.symm
  | p :: q :: s :: u =>
    rw [hdrop] at hp hsuffix
    have hpre : [x, x, ch '>'] <+: p :: q :: s :: u :=
      prefix_of_prefix_length_le hp (prefix_append _ _) (by simp)
    exact ha (hpre.isInfix.trans hsuffix.isInfix)

theorem findEnd_first {x : UInt8} (hx : x ≠ ch '>') (hx0 : x ≠ 0) {r : List UInt8}
    (ha : ¬ [x, x, ch '>'] <:+: a) (hr : r ≠ []) (h : text.drop pos = a ++ ([x, x, ch '>'] ++ r)) :
    findEnd text [x, x, ch '>'] false pos = .ok (some (pos + a.length)) := by
  have hfree : NulFree [x, x, ch '>'] := by
    intro c hc
    simp only [mem_cons, not_mem_nil, or_false, or_self_left] at hc
    rcases hc with rfl | rfl
    · exact hx0
    · decide
  have hlen := length_of_drop h (by simp)
  rw [length_append, length_append] at hlen
  have hfind := findStrLoop_first hfree hr (fun i hi => not_prefix_before hx ha r hi)
    (show a.length < text.length + 1 by omega) h
  have hfound := drop_add_of_drop h
  rw [findEnd, findStr, hfind, ok_bind, if_neg (by omega), strncmp_eq text hfree (by omega), ok_bind,
    hfound, decide_eq_true (prefix_append _ _)]
  rfl

/-! ## Parts -/

theorem addText_shows {t s : List UInt8} {c : UInt8} {parts : List TextPart} {shown : List Part}
    (hparts : List.Forall₂ (Shows text) parts shown) (hc : c = ch '<' ∨ c = ch ']')
    (h : text.drop pos = t ++ c :: s) :
    List.Forall₂ (Shows text) (addText parts pos (pos + t.length)) (shown ++ textPart t) := by
  rw [addText, Nat.add_sub_cancel_left, textPart]
  cases t with
  | nil => simpa using hparts
  | cons x t =>
    rw [if_pos (by simp), if_neg (cons_ne_nil x t)]
    exact rel_append hparts (.cons ⟨⟨c, s, h, hc⟩, rfl, rfl⟩ .nil)

variable {t s : List UInt8} {parts : List TextPart}

theorem textPartStep_item {item : Item} (hitem : item.Closed) (ht : ∀ c ∈ t, c ≠ ch '<')
    (hs : s ≠ []) {shown : List Part} (hparts : List.Forall₂ (Shows text) parts shown)
    (h : text.drop pos = t ++ (item.bytes ++ s)) :
    ∃ parts', textPartStep text parts pos =
        .ok (.more parts' (pos + t.length + item.bytes.length)) ∧
      List.Forall₂ (Shows text) parts' (shown ++ itemParts t item) := by
  have hpos := length_pos_iff.mpr hs
  cases item with
  | comment c =>
    have hbytes : (Item.comment c).bytes ++ s =
        ch '<' :: ch '!' :: ch '-' :: ch '-' :: (c ++ ([ch '-', ch '-', ch '>'] ++ s)) := by
      simp [Item.bytes, lit]
    rw [hbytes] at h
    have hopen := drop_add_of_drop h
    have hbang := drop_succ_of_drop hopen
    have hdash := drop_succ_of_drop hbang
    have hdash' := drop_succ_of_drop hdash
    have hcomment := drop_succ_of_drop hdash'
    have hlen := length_of_drop hdash (by simp)
    simp only [length_cons, length_append] at hlen
    have hspan : span text (· ≠ ch '<') pos = t.length :=
      span_of_drop h (fun c hc => by simpa using ht c hc) (by simp)
    have hend := findEnd_first (x := ch '-') (by decide) (by decide) hitem hs hcomment
    refine ⟨parts ++ [⟨pos, t.length, false⟩], ?_, ?_⟩
    · rw [textPartStep, findChar_eq, ok_bind, hspan, if_neg (by omega), byteAt_of_drop hopen,
        ok_bind, if_neg (by simp), if_neg (by omega), byteAt_of_drop hbang, ok_bind, if_pos rfl,
        textSpecial, if_neg (by omega), byteAt_of_drop hdash, ok_bind, byteAt_of_drop hdash', ok_bind,
        if_pos ⟨rfl, rfl⟩]
      have hlit : lit "-->" = [ch '-', ch '-', ch '>'] := rfl
      rw [hlit, show pos + t.length + 2 + 2 = pos + t.length + 1 + 1 + 1 + 1 by omega, hend,
        ok_bind, Nat.add_sub_cancel_left]
      have hlength : (Item.comment c).bytes.length = c.length + 7 := by
        simp [Item.bytes, lit]
      rw [hlength]
      refine congrArg (fun n => Except.ok (PartStep.more _ n)) ?_
      omega
    · exact List.rel_append hparts (.cons ⟨⟨_, _, h, .inl rfl⟩, rfl, rfl⟩ .nil)
  | cdata d =>
    have hbytes : (Item.cdata d).bytes ++ s =
        ch '<' :: ch '!' :: ch '[' :: (lit "CDATA[" ++ (d ++ ([ch ']', ch ']', ch '>'] ++ s))) := by
      simp [Item.bytes, lit]
    rw [hbytes] at h
    have hopen := drop_add_of_drop h
    have hbang := drop_succ_of_drop hopen
    have hbracket := drop_succ_of_drop hbang
    have hword := drop_succ_of_drop hbracket
    have hnext : text.drop (pos + t.length + 1 + 1 + 1) =
        ch 'C' :: (lit "DATA[" ++ (d ++ ([ch ']', ch ']', ch '>'] ++ s))) := hword
    have hblock := drop_add_of_drop hword
    have hsix : (lit "CDATA[").length = 6 := rfl
    have hlen := length_of_drop hword (by simp)
    simp only [List.length_cons, List.length_append, hsix, List.length_nil] at hlen
    have hspan : span text (· ≠ ch '<') pos = t.length :=
      span_of_drop h (fun c hc => by simpa using ht c hc) (by simp)
    have hend := findEnd_first (x := ch ']') (by decide) (by decide) hitem hs hblock
    have hshown := addText_shows hparts (.inl rfl) h
    refine ⟨addText parts pos (pos + t.length) ++ [⟨pos + t.length + 9, d.length, true⟩], ?_, ?_⟩
    · have hstep : textPartStep text parts pos =
          textCdata text parts pos (pos + t.length) (pos + t.length + 1 + 1 + 1) := by
        rw [textPartStep, findChar_eq, ok_bind, hspan, if_neg (by omega), byteAt_of_drop hopen,
          ok_bind, if_neg (by simp), if_neg (by omega), byteAt_of_drop hbang, ok_bind, if_pos rfl,
          textSpecial, if_neg (by omega), byteAt_of_drop hbracket, ok_bind, byteAt_of_drop hnext,
          ok_bind, if_neg (by decide), if_pos rfl]
      have hcmp : strncmp text (pos + t.length + 1 + 1 + 1) (lit "CDATA[") 6 = .ok true := by
        rw [← hsix, strncmp_eq text (by decide) (by omega), hword,
          decide_eq_true (List.prefix_append _ _)]
      have hlit : lit "]]>" = [ch ']', ch ']', ch '>'] := rfl
      rw [hsix] at hend
      rw [hstep, textCdata, if_neg (by omega), hcmp, ok_bind, if_pos rfl, hlit, hend, ok_bind]
      simp only
      rw [Nat.add_sub_cancel_left]
      have hlength : (Item.cdata d).bytes.length = d.length + 12 := by
        simp [Item.bytes, lit]
      rw [hlength]
      refine congrArg (fun n => Except.ok (PartStep.more _ n)) ?_
      omega
    · rw [hsix] at hblock
      rw [itemParts, ← append_assoc]
      exact rel_append hshown (.cons ⟨⟨_, _, hblock, .inr rfl⟩, rfl, rfl⟩ .nil)

/-- What is behind a text: a closing tag, with blanks in it. -/
def closing (tag w s : List UInt8) : List UInt8 := ch '<' :: ch '/' :: (tag ++ (w ++ ch '>' :: s))

theorem closing_ne_nil (tag w s : List UInt8) : closing tag w s ≠ [] := cons_ne_nil _ _

theorem textPartsLoop_closing {tag w t s : List UInt8} {fuel : Nat} (hfuel : 0 < fuel)
    (htag : NulFree tag) (hw : ∀ c ∈ w, isBlank c) (ht : ∀ c ∈ t, c ≠ ch '<')
    {parts : List TextPart} (h : text.drop pos = t ++ closing tag w s) :
    textPartsLoop text tag tag.length fuel parts pos =
      .ok (some (addText parts pos (pos + t.length)), pos + t.length + (tag.length + w.length + 3)) := by
  obtain ⟨fuel, rfl⟩ := Nat.exists_eq_succ_of_ne_zero (n := fuel) (by omega)
  have hopen := drop_add_of_drop h
  have hslash := drop_succ_of_drop hopen
  have hname := drop_succ_of_drop hslash
  have hblanks := drop_add_of_drop hname
  have hgt := drop_add_of_drop hblanks
  have hlt := lt_length_of_drop hgt
  have hspan : span text (· ≠ ch '<') pos = t.length :=
    span_of_drop h (fun c hc => by simpa using ht c hc) (by simp)
  have hstep : textPartStep text parts pos =
      .ok (.close parts pos (pos + t.length) (pos + t.length + 1)) := by
    rw [textPartStep, findChar_eq, ok_bind, hspan, if_neg (by omega), byteAt_of_drop hopen, ok_bind,
      if_neg (by simp), if_neg (by omega), byteAt_of_drop hslash, ok_bind, if_neg (by decide),
      if_pos rfl]
  have hskip : span text isBlank (pos + t.length + 1 + 1 + tag.length) = w.length :=
    span_of_drop hblanks hw (by decide)
  rw [textPartsLoop, hstep, ok_bind]
  simp only
  rw [closingTag, if_neg (by omega), strncmp_eq text htag (by omega), ok_bind, if_pos ?_,
    parseSkipWs_eq, ok_bind, hskip, if_neg (by omega), byteAt_of_drop hgt, ok_bind, if_neg (by simp)]
  · refine congrArg (fun n => Except.ok (_, n)) ?_
    omega
  · rw [hname]
    exact decide_eq_true (prefix_append _ _)

/-- **The loop of `get_text_parts`** makes the parts of the text. -/
theorem textPartsLoop_body {tag w : List UInt8} (htag : NulFree tag) (hw : ∀ c ∈ w, isBlank c)
    (items : List (Item × List UInt8)) (hok : BodyOk t items) {fuel : Nat}
    (hfuel : items.length < fuel) {shown : List Part}
    (hparts : List.Forall₂ (Shows text) parts shown)
    (h : text.drop pos = bodyBytes t items ++ closing tag w s) :
    ∃ parts', textPartsLoop text tag tag.length fuel parts pos = .ok (some parts',
        pos + (bodyBytes t items).length + (tag.length + w.length + 3)) ∧
      List.Forall₂ (Shows text) parts' (shown ++ partsOf t items) := by
  induction items generalizing t fuel parts shown pos with
  | nil =>
    rw [bodyBytes] at h ⊢
    exact ⟨_, textPartsLoop_closing (by omega) htag hw hok.1 h,
      addText_shows hparts (.inl rfl) h⟩
  | cons p items ih =>
    obtain ⟨item, t'⟩ := p
    obtain ⟨hitem, ht'⟩ : item.Closed ∧ ∀ c ∈ t', c ≠ ch '<' :=
      hok.2 (item, t') mem_cons_self
    obtain ⟨fuel, rfl⟩ := Nat.exists_eq_succ_of_ne_zero (n := fuel) (by omega)
    rw [length_cons] at hfuel
    rw [bodyBytes, append_assoc, append_assoc] at h
    obtain ⟨parts1, hstep, hparts1⟩ := textPartStep_item hitem hok.1
      (by simp [closing_ne_nil]) hparts h
    have hrest := drop_add_of_drop (drop_add_of_drop h)
    obtain ⟨parts2, hrun, hparts2⟩ := ih
      ⟨ht', fun q hq => hok.2 q (mem_cons_of_mem _ hq)⟩
      (show items.length < fuel by omega) hparts1 hrest
    refine ⟨parts2, ?_, ?_⟩
    · rw [textPartsLoop, hstep, ok_bind]
      simp only
      rw [hrun, bodyBytes, length_append, length_append]
      refine congrArg (fun n => Except.ok (_, n)) ?_
      omega
    · rw [partsOf, ← append_assoc]
      exact hparts2

theorem bodyBytes_append (x t : List UInt8) (items : List (Item × List UInt8)) :
    bodyBytes (x ++ t) items = x ++ bodyBytes t items := by
  cases items with
  | nil => rfl
  | cons p items => rw [bodyBytes, bodyBytes, append_assoc]

theorem bodyBytes_nil_head (items : List (Item × List UInt8)) (tag w s : List UInt8) :
    ∃ r, bodyBytes [] items ++ closing tag w s = ch '<' :: r := by
  cases items with
  | nil => exact ⟨_, rfl⟩
  | cons p items =>
    obtain ⟨item, t'⟩ := p
    cases item with
    | comment c => exact ⟨_, rfl⟩
    | cdata d => exact ⟨_, rfl⟩

theorem items_length_le (t : List UInt8) (items : List (Item × List UInt8)) :
    items.length ≤ (bodyBytes t items).length := by
  induction items generalizing t with
  | nil => exact Nat.zero_le _
  | cons p items ih =>
    obtain ⟨item, t'⟩ := p
    have hitem : 0 < item.bytes.length := by
      cases item with
      | comment c => simp [Item.bytes, lit]
      | cdata d => simp [Item.bytes, lit]
    have hrest := ih t'
    rw [bodyBytes, length_append, length_append, length_cons]
    omega

theorem getTextParts_body {tag w : List UInt8} (htag : NulFree tag) (hw : ∀ c ∈ w, isBlank c)
    (items : List (Item × List UInt8)) (hok : BodyOk t items) (skipWs : Bool)
    (h : text.drop pos = bodyBytes t items ++ closing tag w s) :
    ∃ parts, getTextParts text tag tag.length skipWs pos = .ok (some parts,
        pos + (bodyBytes t items).length + (tag.length + w.length + 3)) ∧
      List.Forall₂ (Shows text) parts
        (partsOf (if skipWs then t.dropWhile isBlank else t) items) := by
  have hle := items_length_le t items
  have hlen := length_of_drop h (by simp [closing_ne_nil])
  rw [length_append] at hlen
  cases skipWs with
  | false =>
    obtain ⟨parts, hrun, hparts⟩ := textPartsLoop_body htag hw items hok
      (show items.length < text.length + 1 by omega) .nil h
    refine ⟨parts, ?_, hparts⟩
    simp only [getTextParts, Bool.false_eq_true, if_false, ok_bind]
    exact hrun
  | true =>
    -- the blanks end at the text, or at the `<` behind it
    have hsplit : t.takeWhile isBlank ++ t.dropWhile isBlank = t := takeWhile_append_dropWhile
    have hblanks : text.drop pos = t.takeWhile isBlank ++
        (bodyBytes (t.dropWhile isBlank) items ++ closing tag w s) := by
      rw [h, ← append_assoc, ← bodyBytes_append, hsplit]
    obtain ⟨c, r, hnext, hc⟩ : ∃ c r, bodyBytes (t.dropWhile isBlank) items ++ closing tag w s =
        c :: r ∧ isBlank c = false := by
      cases hrest : t.dropWhile isBlank with
      | nil =>
        obtain ⟨r, hr⟩ := bodyBytes_nil_head items tag w s
        exact ⟨_, r, hr, by decide⟩
      | cons c t' =>
        have hhead := List.head?_dropWhile_not isBlank t
        rw [hrest] at hhead
        have hbytes : bodyBytes (c :: t') items = c :: bodyBytes t' items :=
          bodyBytes_append [c] t' items
        exact ⟨c, _, by rw [hbytes, cons_append], by simpa using hhead⟩
    have hskip : span text isBlank pos = (t.takeWhile isBlank).length := by
      rw [hnext] at hblanks
      exact span_of_drop hblanks (fun c hc => mem_takeWhile_imp hc) (by simp [hc])
    have hok' : BodyOk (t.dropWhile isBlank) items :=
      ⟨fun c hc => hok.1 c ((dropWhile_suffix _).subset hc), hok.2⟩
    obtain ⟨parts, hrun, hparts⟩ := textPartsLoop_body htag hw items hok'
      (show items.length < text.length + 1 by omega) .nil (drop_add_of_drop hblanks)
    refine ⟨parts, ?_, hparts⟩
    simp only [getTextParts, if_true, parseSkipWs_eq, ok_bind, hskip]
    rw [hrun]
    have hlength : (bodyBytes t items).length =
        (t.takeWhile isBlank).length + (bodyBytes (t.dropWhile isBlank) items).length := by
      rw [← length_append, ← bodyBytes_append, hsplit]
    rw [hlength]
    refine congrArg (fun n => Except.ok (_, n)) ?_
    omega

/-! ## Content -/

/-- The copy of one part. -/
def shownCopy (unescEntities : Bool) (p : Part) : Except Stop (Option (List UInt8)) :=
  if !p.isCdata && unescEntities then unescapeEntities (strncpy p.bytes)
  else .ok (some (strncpy p.bytes))

/-- The copy of all parts. -/
def copyShown (unescEntities : Bool) : List Part → Except Stop (Option (List UInt8))
  | [] => .ok (some [])
  | p :: ps => do
      match ← shownCopy unescEntities p with
      | none => .ok none
      | some s => do
          match ← copyShown unescEntities ps with
          | none => .ok none
          | some rest => .ok (some (s ++ rest))

/-- All that the parts show. -/
def shownBytes (ps : List Part) : List UInt8 := ps.flatMap Part.bytes

theorem Shows.copyPart {tp : TextPart} {p : Part} (h : Shows text tp p) (unescEntities : Bool) :
    copyPart text unescEntities tp = shownCopy unescEntities p := by
  obtain ⟨⟨c, r, hdrop, -⟩, hlen, hcdata⟩ := h
  have hle := length_of_drop hdrop (by simp)
  rw [length_append] at hle
  rw [Xplist.copyPart, bytesAt, hlen, if_pos (by omega), hdrop, take_left, ok_bind, hcdata,
    shownCopy]

theorem copyParts_shows (unescEntities : Bool) {ps : List Part}
    (h : List.Forall₂ (Shows text) parts ps) :
    copyParts text unescEntities parts = copyShown unescEntities ps := by
  induction h with
  | nil => rfl
  | cons hp _ ih =>
    rw [copyParts, hp.copyPart, ih]
    rfl

theorem copyShown_plain (ps : List Part) :
    copyShown false ps = .ok (some (ps.flatMap fun p => strncpy p.bytes)) := by
  induction ps with
  | nil => rfl
  | cons p ps ih =>
    rw [copyShown, ih, shownCopy]
    simp only [Bool.and_false, Bool.false_eq_true, if_false]
    rfl

variable {x : List UInt8}

theorem nul_split (h : ¬ NulFree x) : ∃ r, x = cstr x ++ 0 :: r := by
  have hlt : (x.takeWhile (· ≠ 0)).length < x.length := by
    refine Nat.lt_of_le_of_ne ( takeWhile_prefix _).length_le fun heq => h ?_
    have hall := ( takeWhile_prefix (· ≠ 0) (l := x)).eq_of_length heq
    intro c hc
    rw [← hall] at hc
    simpa using mem_takeWhile_imp hc
  obtain ⟨c, r, hsplit, hc⟩ := takeWhile_split hlt
  obtain rfl : c = 0 := by simpa using hc
  exact ⟨r, hsplit⟩

theorem cstr_stop (hx : NulFree x) (y : List UInt8) : cstr (x ++ 0 :: y) = x := by
  have hall : ∀ c ∈ x, (fun c : UInt8 => decide (c ≠ 0)) c = true :=
    fun c hc => decide_eq_true (hx c hc)
  rw [cstr, takeWhile_append_of_pos hall, takeWhile_cons_of_neg (by simp), append_nil]

theorem cstr_append_of_nulFree (hx : NulFree x) (y : List UInt8) : cstr (x ++ y) = x ++ cstr y := by
  have hall : ∀ c ∈ x, (fun c : UInt8 => decide (c ≠ 0)) c = true :=
    fun c hc => decide_eq_true (hx c hc)
  rw [cstr, takeWhile_append_of_pos hall, cstr]

theorem strncpy_of_nulFree (hx : NulFree x) : strncpy x = x := by
  rw [strncpy, cstr_of_nulFree hx, Nat.sub_self, replicate_zero, append_nil]

theorem cstr_strncpy_append (x y : List UInt8) :
    cstr (strncpy x ++ y) = if NulFree x then x ++ cstr y else cstr x := by
  split
  · rename_i hx
    rw [strncpy_of_nulFree hx, cstr_append_of_nulFree hx]
  · rename_i hx
    obtain ⟨r, hr⟩ := nul_split hx
    obtain ⟨n, hn⟩ : ∃ n, x.length - (cstr x).length = n + 1 := by
      have hlen := congrArg List.length hr
      rw [length_append, length_cons] at hlen
      exact ⟨r.length, by omega⟩
    rw [strncpy, hn, replicate_succ, append_assoc, cons_append, cstr_stop (nulFree_cstr x)]

theorem cstr_append (x y : List UInt8) :
    cstr (x ++ y) = if NulFree x then x ++ cstr y else cstr x := by
  split
  · rename_i hx
    exact cstr_append_of_nulFree hx y
  · rename_i hx
    obtain ⟨r, hr⟩ := nul_split hx
    rw [hr, append_assoc, cons_append, cstr_stop (nulFree_cstr x), ← hr]

theorem cstr_strncpy (x : List UInt8) : cstr (strncpy x) = cstr x := by
  have h := cstr_strncpy_append x []
  have h' := cstr_append x []
  rw [append_nil] at h h'
  exact h.trans h'.symm

theorem cstr_copies (ps : List Part) :
    cstr (ps.flatMap fun p => strncpy p.bytes) = cstr (shownBytes ps) := by
  induction ps with
  | nil => rfl
  | cons p ps ih =>
    rw [shownBytes, flatMap_cons, flatMap_cons, ← shownBytes, cstr_strncpy_append, cstr_append, ih]

/-- A buffer that begins with `s` and has a `NUL`, a `<` or a `]` behind it. -/
def Ends (s buf : List UInt8) : Prop :=
  cstr buf = cstr s ∨ ∃ c r, buf = s ++ c :: r ∧ (c = ch '<' ∨ c = ch ']')

/-- **The content** of a text that has parts: all of them, and what they show of the first one. -/
theorem textPartsGetContent_shows {tp : TextPart} {rest : List TextPart} {p : Part}
    {ps : List Part} (h : List.Forall₂ (Shows text) (tp :: rest) (p :: ps)) :
    ∃ buf, textPartsGetContent text tp rest = .ok (some (buf, (shownBytes (p :: ps)).length)) ∧
      Ends (shownBytes (p :: ps)) buf ∧ cstr (buf.take tp.length) = cstr p.bytes ∧
      tp.length = p.bytes.length := by
  have hcopies := copyParts_shows false h
  obtain ⟨hp, hrest⟩ := List.forall₂_cons.mp h
  rw [textPartsGetContent]
  by_cases hnil : rest = []
  · obtain rfl : ps = [] := by
      rw [hnil] at hrest
      exact List.forall₂_nil_left_iff.mp hrest
    obtain ⟨⟨c, r, hdrop, hc⟩, hlen, -⟩ := hp
    have hall : shownBytes [p] = p.bytes := append_nil _
    have hbyte := byteAt_of_drop (drop_add_of_drop hdrop)
    rw [if_pos hnil, hlen, hbyte, ok_bind, hdrop, hall]
    exact ⟨_, rfl, .inr ⟨c, r, rfl, hc⟩, by rw [take_left], rfl⟩
  · rw [if_neg hnil, hcopies, copyShown_plain, ok_bind]
    have hlength : ((p :: ps).flatMap fun p => strncpy p.bytes).length =
        (shownBytes (p :: ps)).length := by
      rw [shownBytes, length_flatMap, length_flatMap]
      simp only [strncpy_length]
    have hfirst : ((p :: ps).flatMap fun p => strncpy p.bytes).take tp.length = strncpy p.bytes := by
      rw [hp.2.1, flatMap_cons, ← strncpy_length p.bytes, take_left]
    exact ⟨_, by rw [← hlength], .inl (cstr_copies _), by rw [hfirst, cstr_strncpy], hp.2.1⟩

end

end IDeviceStack.Libplist.Xplist
