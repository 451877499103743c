/-
# `Libplist.Xplist.Ahead` — two texts that go on alike

The reader looks at what is in front of it and never back.  Where two texts are the same
from two positions on (`Ahead`) each of its functions does the same in both: it fails in
both, or comes to positions from which they are again the same.  That is shown function
by function, up to the loop of `node_from_xml` on two states that differ in `ctx->pos`
alone.

The failing runs are not compared any further: they are told apart by `ctx->err`, which is
part of the state.
-/
import IDeviceStack.Lib.Relate
import IDeviceStack.Libplist.Xplist.Robust

namespace IDeviceStack.Libplist.Xplist

open Lib

/-- The texts are the same from `pos` and `pos'` on. -/
structure Ahead (text text' : List UInt8) (pos pos' : Nat) : Prop where
  le : pos ≤ text.length
  le' : pos' ≤ text'.length
  drop_eq : text.drop pos = text'.drop pos'

section Scan

variable {text text' : List UInt8} {pos pos' : Nat}

theorem Ahead.length (h : Ahead text text' pos pos') : text.length + pos' = text'.length + pos := by
  have hlength := congrArg List.length h.drop_eq
  rw [List.length_drop, List.length_drop] at hlength
  have := h.le
  have := h.le'
  omega

theorem Ahead.add {n : Nat} (h : Ahead text text' pos pos') (hn : pos + n ≤ text.length) :
    Ahead text text' (pos + n) (pos' + n) := by
  have hlength := h.length
  refine ⟨hn, by omega, ?_⟩
  rw [← List.drop_drop, h.drop_eq, List.drop_drop]

variable {q q' : Nat}

theorem Ahead.place (h : Ahead text text' pos pos') (hle : pos ≤ q) (hq : q ≤ text.length)
    (hq' : q' + pos = q + pos') : Ahead text text' q q' := by
  have hadd := h.add (n := q - pos) (by omega)
  rwa [show pos + (q - pos) = q by omega, show pos' + (q - pos) = q' by omega] at hadd

theorem byteAt_ok {c : UInt8} (h : byteAt text pos = .ok c) : pos < text.length := by
  by_contra hge
  rw [byteAt, List.getElem?_eq_none (by omega)] at h
  cases h

theorem Ahead.byteAt_add (h : Ahead text text' pos pos') (n : Nat) :
    Related (· = ·) (byteAt text (pos + n)) (byteAt text' (pos' + n)) := by
  have hget : text[pos + n]? = text'[pos' + n]? := by
    rw [← List.getElem?_drop, h.drop_eq, List.getElem?_drop]
  rw [byteAt, byteAt, hget]
  cases text'[pos' + n]? with
  | none => trivial
  | some c => exact Related.ok rfl

theorem Ahead.byteAt (h : Ahead text text' pos pos') :
    Related (· = ·) (byteAt text pos) (byteAt text' pos') := h.byteAt_add 0

theorem Ahead.span_eq (h : Ahead text text' pos pos') (p : UInt8 → Bool) :
    span text p pos = span text' p pos' := by
  rw [span, span, h.drop_eq]

theorem Ahead.add_span (h : Ahead text text' pos pos') (p : UInt8 → Bool) :
    Ahead text text' (pos + span text p pos) (pos' + span text' p pos') := by
  have hle := span_le text p pos
  have := h.le
  rw [← h.span_eq p]
  exact h.add (by omega)

theorem Ahead.parseSkipWs (h : Ahead text text' pos pos') :
    Related (Ahead text text') (parseSkipWs text pos) (parseSkipWs text' pos') := by
  rw [parseSkipWs_eq, parseSkipWs_eq]
  exact Related.ok (h.add_span isBlank)

theorem Ahead.findChar (h : Ahead text text' pos pos') (c : UInt8) :
    Related (Ahead text text') (findChar text c false pos) (findChar text' c false pos') := by
  rw [findChar_eq, findChar_eq]
  exact Related.ok (h.add_span (· ≠ c))

theorem Ahead.strncmp (h : Ahead text text' pos pos') (str : List UInt8) (n : Nat) :
    Related (· = ·) (strncmp text pos str n) (strncmp text' pos' str n) := by
  induction n generalizing pos pos' str with
  | zero => exact Related.ok rfl
  | succ n ih =>
    rw [Xplist.strncmp, Xplist.strncmp]
    refine h.byteAt.bind_of fun c c' hc hsame => ?_
    subst hsame
    refine Related.ite Iff.rfl (fun _ => Related.ok rfl) fun _ => ?_
    exact Related.ite Iff.rfl (fun _ => Related.ok rfl) fun _ => ih (h.add (byteAt_ok hc)) str.tail

theorem Ahead.ge_iff (h : Ahead text text' pos pos') (n : Nat) :
    pos + n ≥ text.length ↔ pos' + n ≥ text'.length := by
  have := h.length
  omega

/-- A place, and whether the search goes on. -/
def SamePlace (text text' : List UInt8) (r r' : Nat × Bool) : Prop :=
  Ahead text text' r.1 r'.1 ∧ r.2 = r'.2

theorem Ahead.passQuoted (h : Ahead text text' pos pos') (skipQuotes : Bool) :
    Related (SamePlace text text') (passQuoted text skipQuotes pos)
      (passQuoted text' skipQuotes pos') := by
  rw [Xplist.passQuoted, Xplist.passQuoted]
  refine h.byteAt.bind_of fun c c' hc hsame => ?_
  subst hsame
  refine Related.ite Iff.rfl (fun _ => ?_) fun _ => Related.ok ⟨h, rfl⟩
  refine ((h.add (byteAt_ok hc)).findChar quote).bind fun q q' hq => ?_
  refine Related.ite (hq.ge_iff 0) (fun _ => Related.ok ⟨hq, rfl⟩) fun _ => ?_
  refine hq.byteAt.bind fun c c' hsame => ?_
  subst hsame
  exact Related.ite Iff.rfl (fun _ => Related.ok ⟨hq, rfl⟩) fun _ => Related.ok ⟨hq, rfl⟩

theorem Ahead.afterQuoted {β β' : Type} {S : β → β' → Prop} {f : Nat × Bool → Except Stop β}
    {g : Nat × Bool → Except Stop β'} (h : Ahead text text' pos pos') (skipQuotes : Bool)
    (hpos : pos < text.length)
    (hfg : ∀ q q' found, Ahead text text' q q' → (found = true → pos ≤ q ∧ q < text.length) →
      Related S (f (q, found)) (g (q', found))) :
    Related S (Xplist.passQuoted text skipQuotes pos >>= f)
      (Xplist.passQuoted text' skipQuotes pos' >>= g) := by
  refine (h.passQuoted skipQuotes).bind_of fun r r' hr hsame => ?_
  obtain ⟨q, found⟩ := r
  obtain ⟨q', found'⟩ := r'
  obtain ⟨hq, rfl⟩ : Ahead text text' q q' ∧ found = found' := hsame
  obtain ⟨_, _, hrun, hle, -, hfound, -⟩ := passQuoted_spec text skipQuotes hpos
  cases hrun.symm.trans hr
  exact hfg q q' found hq fun hin => ⟨hle, hfound hin⟩

variable {fuel fuel' : Nat}

theorem Ahead.findStrLoop (h : Ahead text text' pos pos') (str : List UInt8) (skipQuotes : Bool)
    (hfuel : text.length - pos < fuel) (hfuel' : text'.length - pos' < fuel') :
    Related (Ahead text text') (findStrLoop text str skipQuotes fuel pos)
      (findStrLoop text' str skipQuotes fuel' pos') := by
  have hlength := h.length
  induction fuel generalizing pos pos' fuel' with
  | zero => omega
  | succ fuel ih =>
    obtain ⟨fuel', rfl⟩ := Nat.exists_eq_succ_of_ne_zero (n := fuel') (by omega)
    rw [Xplist.findStrLoop, Xplist.findStrLoop]
    refine Related.ite (by omega) (fun hlt => ?_) fun _ => Related.ok h
    refine (h.strncmp str str.length).bind fun b b' hsame => ?_
    subst hsame
    refine Related.ite Iff.rfl (fun _ => Related.ok h) fun _ => ?_
    refine h.afterQuoted skipQuotes (by omega) fun q q' found hq hfound => ?_
    cases found with
    | false => exact Related.ok hq
    | true =>
      obtain ⟨hle, hlt'⟩ := hfound rfl
      have hq1 := hq.add (n := 1) hlt'
      have hlength' := hq1.length
      exact ih hq1 (by omega) (by omega) hlength'

theorem Ahead.findStr (h : Ahead text text' pos pos') (str : List UInt8) (skipQuotes : Bool) :
    Related (Ahead text text') (findStr text str skipQuotes pos)
      (findStr text' str skipQuotes pos') := h.findStrLoop str skipQuotes (by omega) (by omega)

/-- `str` is found in both texts or in neither, and it is in front of the end. -/
def SameEnd (text text' str : List UInt8) : Option Nat → Option Nat → Prop :=
  Option.Rel fun q q' => Ahead text text' q q' ∧ q + str.length ≤ text.length

theorem Ahead.findEnd (h : Ahead text text' pos pos') (str : List UInt8) (skipQuotes : Bool) :
    Related (SameEnd text text' str) (findEnd text str skipQuotes pos)
      (findEnd text' str skipQuotes pos') := by
  rw [Xplist.findEnd, Xplist.findEnd]
  refine (h.findStr str skipQuotes).bind fun q q' hq => ?_
  have hlength := hq.length
  refine Related.ite (by omega) (fun _ => Related.ok .none) fun hlt => ?_
  refine (hq.strncmp str str.length).bind fun b b' hsame => ?_
  subst hsame
  exact Related.ite Iff.rfl (fun _ => Related.ok (.some ⟨hq, by omega⟩)) fun _ => Related.ok .none

theorem Ahead.findNextLoop (h : Ahead text text' pos pos') (nextchars : List UInt8)
    (skipQuotes : Bool) (hfuel : text.length - pos < fuel) (hfuel' : text'.length - pos' < fuel') :
    Related (Ahead text text') (findNextLoop text nextchars skipQuotes fuel pos)
      (findNextLoop text' nextchars skipQuotes fuel' pos') := by
  have hlength := h.length
  induction fuel generalizing pos pos' fuel' with
  | zero => omega
  | succ fuel ih =>
    obtain ⟨fuel', rfl⟩ := Nat.exists_eq_succ_of_ne_zero (n := fuel') (by omega)
    rw [Xplist.findNextLoop, Xplist.findNextLoop]
    refine Related.ite (by omega) (fun hlt => ?_) fun _ => Related.ok h
    refine h.afterQuoted skipQuotes hlt fun q q' found hq hfound => ?_
    cases found with
    | false => exact Related.ok hq
    | true =>
      obtain ⟨hle, hlt'⟩ := hfound rfl
      refine hq.byteAt.bind fun c c' hsame => ?_
      subst hsame
      refine Related.ite Iff.rfl (fun _ => Related.ok hq) fun _ => ?_
      have hq1 := hq.add (n := 1) hlt'
      have hlength' := hq1.length
      exact ih hq1 (by omega) (by omega) hlength'

theorem Ahead.findNext (h : Ahead text text' pos pos') (nextchars : List UInt8)
    (skipQuotes : Bool) :
    Related (Ahead text text') (findNext text nextchars skipQuotes pos)
      (findNext text' nextchars skipQuotes pos') :=
  h.findNextLoop nextchars skipQuotes (by omega) (by omega)

/-! ## What is not a tag -/

theorem Ahead.skipInstruction (h : Ahead text text' pos pos') :
    Related (Option.Rel (Ahead text text')) (skipInstruction text pos)
      (skipInstruction text' pos') := by
  rw [Xplist.skipInstruction, Xplist.skipInstruction]
  refine (h.findEnd (lit "?>") true).bind fun r r' hr => ?_
  cases hr with
  | none => exact Related.ok .none
  | some hq => exact Related.ok (.some (hq.1.add hq.2))

/-- A `DOCTYPE` ends, or its embedded DTD begins. -/
def SameDoctype (text text' : List UInt8) : Option (Nat × Bool) → Option (Nat × Bool) → Prop :=
  Option.Rel (SamePlace text text')

theorem Ahead.doctypeLoop (h : Ahead text text' pos pos') (hfuel : text.length - pos < fuel)
    (hfuel' : text'.length - pos' < fuel') :
    Related (SameDoctype text text') (doctypeLoop text fuel pos) (doctypeLoop text' fuel' pos') := by
  have hlength := h.length
  induction fuel generalizing pos pos' fuel' with
  | zero => omega
  | succ fuel ih =>
    obtain ⟨fuel', rfl⟩ := Nat.exists_eq_succ_of_ne_zero (n := fuel') (by omega)
    rw [Xplist.doctypeLoop, Xplist.doctypeLoop]
    refine Related.ite (by omega) (fun hlt => ?_) fun _ => Related.ok (.some ⟨h, rfl⟩)
    refine (h.findNext _ true).bind_of fun q q' hrun hq => ?_
    obtain ⟨q1, hrun1, hle, -, hstop⟩ :=
      findNext_spec text [32, 9, 13, 10, ch '[', ch '>'] true h.le
    cases hrun1.symm.trans hrun
    refine Related.ite (hq.ge_iff 0) (fun _ => Related.ok .none) fun hin => ?_
    have hqlt : q < text.length := by omega
    refine hq.byteAt.bind_of fun c c' hc hsame => ?_
    subst hsame
    refine Related.ite Iff.rfl (fun _ => Related.ok (.some ⟨hq, rfl⟩)) fun hopen => ?_
    refine Related.ite Iff.rfl (fun _ => Related.ok (.some ⟨hq.add hqlt, rfl⟩)) fun hclose => ?_
    refine hq.parseSkipWs.bind_of fun t t' ht hsame => ?_
    -- what stopped the search is a blank, so that `parse_skip_ws` moves on
    have hblank : isBlank text[q] = true := by
      have hmem := hstop text[q] (List.getElem?_eq_getElem hqlt)
      rw [byteAt_eq hqlt] at hc
      cases hc
      simp only [List.mem_cons, List.not_mem_nil, or_false] at hmem
      rcases hmem with hx | hx | hx | hx | hx | hx
      · rw [hx]; rfl
      · rw [hx]; rfl
      · rw [hx]; rfl
      · rw [hx]; rfl
      · exact absurd hx hopen
      · exact absurd hx hclose
    rw [parseSkipWs_eq, span_of_pos hqlt hblank] at ht
    cases ht
    have hlength' := hsame.length
    have := hsame.le
    exact ih hsame (by omega) (by omega) hlength'

theorem Ahead.skipDoctype (h : Ahead text text' pos pos') :
    Related (Option.Rel (Ahead text text')) (skipDoctype text pos) (skipDoctype text' pos') := by
  rw [Xplist.skipDoctype, Xplist.skipDoctype]
  have hloop : Related (SameDoctype text text') (Xplist.doctypeLoop text (text.length + 1) pos)
      (Xplist.doctypeLoop text' (text'.length + 1) pos') := h.doctypeLoop (by omega) (by omega)
  refine hloop.bind fun r r' hr => ?_
  cases hr with
  | none => exact Related.ok .none
  | @some a b hab =>
    obtain ⟨q, found⟩ := a
    obtain ⟨q', found'⟩ := b
    obtain ⟨hq, hfound⟩ : Ahead text text' q q' ∧ found = found' := hab
    subst hfound
    cases found with
    | false => exact Related.ok (.some hq)
    | true =>
      refine (hq.findEnd (lit "]>") true).bind fun r r' hr => ?_
      cases hr with
      | none => exact Related.ok .none
      | some he => exact Related.ok (.some (he.1.add he.2))

theorem Ahead.startsWith (h : Ahead text text' pos pos') (str : List UInt8) :
    Related (· = ·) (startsWith text pos str) (startsWith text' pos' str) := by
  have hlength := h.length
  rw [Xplist.startsWith, Xplist.startsWith]
  exact Related.ite (by omega) (fun _ => h.strncmp str str.length) fun _ => Related.ok rfl

theorem startsWith_length {str : List UInt8} (h : startsWith text pos str = .ok true) :
    pos + str.length < text.length := by
  by_contra hge
  rw [startsWith, if_neg hge] at h
  cases h

theorem Ahead.skipSpecial (h : Ahead text text' pos pos') :
    Related (Option.Rel (Ahead text text')) (skipSpecial text pos) (skipSpecial text' pos') := by
  rw [Xplist.skipSpecial, Xplist.skipSpecial]
  refine (h.startsWith (lit "!--")).bind_of fun b b' hb hsame => ?_
  subst hsame
  refine Related.ite Iff.rfl (fun htrue => ?_) fun _ => ?_
  · rw [htrue] at hb
    have hlt := startsWith_length hb
    refine ((h.add (Nat.le_of_lt hlt)).findEnd (lit "-->") false).bind fun r r' hr => ?_
    cases hr with
    | none => exact Related.ok .none
    | some he => exact Related.ok (.some (he.1.add he.2))
  · refine (h.startsWith (lit "!DOCTYPE")).bind_of fun b b' hb hsame => ?_
    subst hsame
    refine Related.ite Iff.rfl (fun htrue => ?_) fun _ => ?_
    · rw [htrue] at hb
      have hlt := startsWith_length hb
      exact (h.add (Nat.le_of_lt hlt)).skipDoctype
    · exact (h.findNext nameEnd true).bind fun _ _ _ => Related.ok .none

/-! ## Tags -/

theorem Ahead.bytesAt (h : Ahead text text' pos pos') (len : Nat) :
    Related (· = ·) (bytesAt text pos len) (bytesAt text' pos' len) := by
  have hlength := h.length
  rw [Xplist.bytesAt, Xplist.bytesAt, h.drop_eq]
  exact Related.ite (by omega) (fun _ => Related.ok rfl) fun _ => Related.error _ _

theorem Ahead.copyName (h : Ahead text text' pos pos') (n : Nat) :
    Related (· = ·) (copyName text pos n) (copyName text' pos' n) := by
  rw [Xplist.copyName, Xplist.copyName, h.drop_eq]
  refine Related.ite Iff.rfl (fun _ => ?_) fun _ => ?_
  · refine (h.bytesAt n).bind fun s s' hs => ?_
    subst hs
    exact Related.ok rfl
  · exact Related.ite Iff.rfl (fun _ => Related.error _ _) fun _ => Related.error _ _

theorem Ahead.findTagEnd (h : Ahead text text' pos pos') :
    Related (Ahead text text') (findTagEnd text pos) (findTagEnd text' pos') := by
  rw [Xplist.findTagEnd, Xplist.findTagEnd]
  refine h.byteAt.bind fun c c' hsame => ?_
  subst hsame
  exact Related.ite Iff.rfl (fun _ => h.findNext _ true) fun _ => Related.ok h

/-- The same tag, or none, with the same text behind it. -/
def SameTag (text text' : List UInt8) : Option (Tag × Nat) → Option (Tag × Nat) → Prop :=
  Option.Rel fun r r' => r.1 = r'.1 ∧ Ahead text text' r.2 r'.2

/-- The tag from behind the `<` at `pos`.  The byte before its `>` is looked at, which is the `<` if
it has no name. -/
theorem Ahead.finishTag (h : Ahead text text' pos pos') {e e' : Nat} (name : List UInt8)
    (hq : Ahead text text' q q') (he : Ahead text text' e e') (hpos : pos < e)
    (hlt : e < text.length) :
    Related (SameTag text text') (finishTag text name (pos + 1) q e)
      (finishTag text' name (pos' + 1) q' e') := by
  have hlength := h.length
  have hlengthq := hq.length
  have hlengthe := he.length
  have := h.le'
  have := hq.le'
  have := he.le'
  have := hq.le
  have hlast : Ahead text text' (e - 1) (e' - 1) := h.place (by omega) (by omega) (by omega)
  have hn : e - (pos + 1) - 1 = e' - (pos' + 1) - 1 := by omega
  have hlen : q - (pos + 1) = q' - (pos' + 1) := by omega
  rw [Xplist.finishTag, Xplist.finishTag, hn, hlen]
  refine hlast.byteAt.bind fun c c' hsame => ?_
  subst hsame
  refine Related.ite Iff.rfl (fun _ => ?_) fun _ => Related.ok (.some ⟨rfl, he.add hlt⟩)
  exact Related.ite Iff.rfl (fun _ => Related.ok (.some ⟨rfl, he.add hlt⟩))
    fun _ => Related.error _ _

theorem Ahead.readTag (h : Ahead text text' pos pos') (hlt : pos < text.length) :
    Related (SameTag text text') (readTag text (pos + 1)) (readTag text' (pos' + 1)) := by
  have h1 := h.add (n := 1) hlt
  have hlength := h1.length
  rw [Xplist.readTag, Xplist.readTag]
  refine (h1.findNext tagEnd false).bind_of fun q q' hrun hq => ?_
  obtain ⟨q1, hrun1, hle, -, -⟩ := findNext_spec text tagEnd false h1.le
  cases hrun1.symm.trans hrun
  have hlengthq := hq.length
  refine Related.ite (hq.ge_iff 0) (fun _ => Related.ok .none) fun hin => ?_
  rw [show q' - (pos' + 1) = q - (pos + 1) by omega]
  refine (h1.copyName _).bind fun name name' hsame => ?_
  subst hsame
  refine hq.findTagEnd.bind_of fun e e' hrun he => ?_
  have hqlt : q < text.length := by omega
  obtain ⟨e1, hrun1, hle', -⟩ := findTagEnd_spec hqlt
  cases hrun1.symm.trans hrun
  refine Related.ite (he.ge_iff 0) (fun _ => Related.ok .none) fun hin' => ?_
  refine he.byteAt.bind fun c c' hsame => ?_
  subst hsame
  exact Related.ite Iff.rfl (fun _ => Related.ok .none)
    fun _ => h.finishTag name hq he (by omega) (by omega)

/-! ## Parts -/

/-- The same part of the text. -/
structure SamePart (text text' : List UInt8) (tp tp' : TextPart) : Prop where
  begin : Ahead text text' tp.begin tp'.begin
  length : tp.length = tp'.length
  isCdata : tp.isCdata = tp'.isCdata

abbrev SameParts (text text' : List UInt8) := List.Forall₂ (SamePart text text')

/-- A turn of the loop of `get_text_parts` comes to the same. -/
def PartStep.Same (text text' : List UInt8) : PartStep → PartStep → Prop
  | .more parts pos, .more parts' pos' => SameParts text text' parts parts' ∧ Ahead text text' pos pos'
  | .close parts p q pos, .close parts' p' q' pos' => SameParts text text' parts parts' ∧
      Ahead text text' p p' ∧ Ahead text text' q q' ∧ Ahead text text' (pos + 1) (pos' + 1)
  | .fail _, .fail _ => True
  | _, _ => False

variable {parts parts' : List TextPart} {tp tp' : TextPart}

theorem SameParts.append (h : SameParts text text' parts parts')
    (htp : SamePart text text' tp tp') : SameParts text text' (parts ++ [tp]) (parts' ++ [tp']) :=
  List.rel_append h (.cons htp .nil)

variable {p p' : Nat}

theorem SamePart.between (hp : Ahead text text' p p') (hq : Ahead text text' q q')
    (isCdata : Bool) : SamePart text text' ⟨p, q - p, isCdata⟩ ⟨p', q' - p', isCdata⟩ := by
  refine ⟨hp, ?_, rfl⟩
  have := hp.length
  have := hq.length
  have := hp.le
  have := hq.le
  show q - p = q' - p'
  omega

theorem SameParts.addText (h : SameParts text text' parts parts') (hp : Ahead text text' p p')
    (hq : Ahead text text' q q') :
    SameParts text text' (addText parts p q) (addText parts' p' q') := by
  have hlen : q - p = q' - p' := (SamePart.between hp hq false).length
  rw [Xplist.addText, Xplist.addText, hlen]
  split
  · rw [← hlen]
    exact h.append (hlen ▸ SamePart.between hp hq false)
  · exact h

theorem Ahead.badTag (h : Ahead text text' pos pos') :
    Related (PartStep.Same text text') (badTag text pos) (badTag text' pos') := by
  rw [Xplist.badTag, Xplist.badTag]
  exact (h.findNext nameEnd true).bind fun _ _ _ => Related.ok trivial

theorem Ahead.textCdata (h : Ahead text text' pos pos') (hparts : SameParts text text' parts parts')
    (hp : Ahead text text' p p') (hq : Ahead text text' q q') :
    Related (PartStep.Same text text') (textCdata text parts p q pos)
      (textCdata text' parts' p' q' pos') := by
  rw [Xplist.textCdata, Xplist.textCdata]
  refine Related.ite (h.ge_iff 8) (fun _ => Related.ok trivial) fun hlt => ?_
  refine (h.strncmp _ 6).bind fun b b' hsame => ?_
  subst hsame
  refine Related.ite Iff.rfl (fun _ => ?_) fun _ => h.badTag
  have h6 := h.add (n := 6) (by omega)
  refine (h6.findEnd (lit "]]>") false).bind fun r r' hr => ?_
  cases hr with
  | none => exact Related.ok trivial
  | some he =>
    exact Related.ok ⟨(hparts.addText hp hq).append (SamePart.between h6 he.1 true), he.1.add he.2⟩

theorem Ahead.textSpecial (h : Ahead text text' pos pos')
    (hparts : SameParts text text' parts parts') (hp : Ahead text text' p p')
    (hq : Ahead text text' q q') :
    Related (PartStep.Same text text') (textSpecial text parts p q pos)
      (textSpecial text' parts' p' q' pos') := by
  rw [Xplist.textSpecial, Xplist.textSpecial]
  refine Related.ite (h.ge_iff 1) (fun _ => Related.ok trivial) fun hlt => ?_
  refine h.byteAt.bind fun c c' hsame => ?_
  subst hsame
  refine (h.byteAt_add 1).bind fun d d' hsame => ?_
  subst hsame
  refine Related.ite Iff.rfl (fun _ => ?_) fun _ => ?_
  · have h2 := h.add (n := 2) (by omega)
    refine (h2.findEnd (lit "-->") false).bind fun r r' hr => ?_
    cases hr with
    | none => exact Related.ok trivial
    | some he => exact Related.ok ⟨hparts.append (SamePart.between hp hq false), he.1.add he.2⟩
  · exact Related.ite Iff.rfl (fun _ => (h.add (n := 1) (by omega)).textCdata hparts hp hq)
      fun _ => h.badTag

theorem Ahead.textPartStep (h : Ahead text text' pos pos')
    (hparts : SameParts text text' parts parts') :
    Related (PartStep.Same text text') (textPartStep text parts pos)
      (textPartStep text' parts' pos') := by
  rw [Xplist.textPartStep, Xplist.textPartStep]
  refine (h.findChar (ch '<')).bind fun q q' hq => ?_
  refine Related.ite (hq.ge_iff 0) (fun _ => Related.ok trivial) fun _ => ?_
  refine hq.byteAt.bind fun c c' hsame => ?_
  subst hsame
  refine Related.ite Iff.rfl (fun _ => Related.ok trivial) fun _ => ?_
  refine Related.ite (hq.ge_iff 1) (fun _ => Related.ok trivial) fun hlt => ?_
  refine (hq.byteAt_add 1).bind fun d d' hsame => ?_
  subst hsame
  refine Related.ite Iff.rfl (fun _ => ?_) fun _ => ?_
  · exact (hq.add (n := 2) (by omega)).textSpecial hparts h hq
  · refine Related.ite Iff.rfl (fun _ => ?_) fun _ => (hq.add (n := 1) (by omega)).badTag
    exact Related.ok ⟨hparts, h, hq, hq.add (n := 2) (by omega)⟩

/-- `get_text_parts` comes to the same. -/
def SameText (text text' : List UInt8) : Option (List TextPart) × Nat →
    Option (List TextPart) × Nat → Prop
  | (some parts, pos), (some parts', pos') =>
    SameParts text text' parts parts' ∧ Ahead text text' pos pos'
  | (none, _), (none, _) => True
  | _, _ => False

theorem Ahead.closingTag (h : Ahead text text' pos pos') (tag : List UInt8) (tagLen : Nat)
    (hparts : SameParts text text' parts parts') (hp : Ahead text text' p p')
    (hq : Ahead text text' q q') :
    Related (SameText text text') (closingTag text tag tagLen parts p q pos)
      (closingTag text' tag tagLen parts' p' q' pos') := by
  rw [Xplist.closingTag, Xplist.closingTag]
  refine Related.ite (h.ge_iff tagLen) (fun _ => Related.ok trivial) fun hlt => ?_
  refine (h.strncmp tag tagLen).bind fun b b' hsame => ?_
  subst hsame
  refine Related.ite Iff.rfl (fun _ => ?_) fun _ => Related.ok trivial
  refine (h.add (n := tagLen) (by omega)).parseSkipWs.bind fun e e' he => ?_
  refine Related.ite (he.ge_iff 0) (fun _ => Related.ok trivial) fun hlt => ?_
  refine he.byteAt.bind fun c c' hsame => ?_
  subst hsame
  refine Related.ite Iff.rfl (fun _ => Related.ok trivial) fun _ => ?_
  exact Related.ok ⟨hparts.addText hp hq, he.add (n := 1) (by omega)⟩

theorem Ahead.textPartsLoop (h : Ahead text text' pos pos') (tag : List UInt8) (tagLen : Nat)
    (hparts : SameParts text text' parts parts') (hfuel : text.length - pos < fuel)
    (hfuel' : text'.length - pos' < fuel') :
    Related (SameText text text') (textPartsLoop text tag tagLen fuel parts pos)
      (textPartsLoop text' tag tagLen fuel' parts' pos') := by
  have hlength := h.length
  induction fuel generalizing pos pos' parts parts' fuel' with
  | zero => omega
  | succ fuel ih =>
    obtain ⟨fuel', rfl⟩ := Nat.exists_eq_succ_of_ne_zero (n := fuel') (by omega)
    rw [Xplist.textPartsLoop, Xplist.textPartsLoop]
    refine (h.textPartStep hparts).bind_of fun r r' hr hsame => ?_
    obtain ⟨step, hstep, hgood⟩ := textPartStep_good parts h.le
    cases hstep.symm.trans hr
    cases r <;> cases r' <;> try exact hsame.elim
    case more.more =>
      obtain ⟨hparts1, hq⟩ := hsame
      obtain ⟨hlt, hle, -⟩ := hgood
      have hlength' := hq.length
      exact ih hq hparts1 (by omega) (by omega) hlength'
    case close.close =>
      obtain ⟨hparts1, hp, hq, hpos⟩ := hsame
      exact hpos.closingTag tag tagLen hparts1 hp hq
    case fail.fail => exact Related.ok trivial

theorem Ahead.getTextParts (h : Ahead text text' pos pos') (tag : List UInt8) (tagLen : Nat)
    (skipWs : Bool) :
    Related (SameText text text') (getTextParts text tag tagLen skipWs pos)
      (getTextParts text' tag tagLen skipWs pos') := by
  rw [Xplist.getTextParts, Xplist.getTextParts]
  refine Related.ite Iff.rfl (fun _ => ?_) fun _ => ?_
  · refine h.parseSkipWs.bind fun q q' hq => ?_
    exact hq.textPartsLoop tag tagLen .nil (by omega) (by omega)
  · exact h.textPartsLoop tag tagLen .nil (by omega) (by omega)

/-! ## Content -/

theorem SamePart.copyPart (h : SamePart text text' tp tp') (unescEntities : Bool) :
    Related (· = ·) (copyPart text unescEntities tp) (copyPart text' unescEntities tp') := by
  rw [Xplist.copyPart, Xplist.copyPart, h.length, h.isCdata]
  refine (h.begin.bytesAt tp'.length).bind fun s s' hsame => ?_
  subst hsame
  exact Related.refl (fun _ => rfl) _

theorem SameParts.copyParts (h : SameParts text text' parts parts') (unescEntities : Bool) :
    Related (· = ·) (copyParts text unescEntities parts) (copyParts text' unescEntities parts') := by
  induction h with
  | nil => exact Related.ok rfl
  | cons htp _ ih =>
    rw [Xplist.copyParts, Xplist.copyParts]
    refine (htp.copyPart unescEntities).bind fun r r' hsame => ?_
    subst hsame
    cases r with
    | none => exact Related.ok rfl
    | some s =>
      refine ih.bind fun r r' hsame => ?_
      subst hsame
      exact Related.refl (fun _ => rfl) _

theorem SamePart.textPartsGetContent {rest rest' : List TextPart} (h : SamePart text text' tp tp')
    (hrest : SameParts text text' rest rest') :
    Related (· = ·) (textPartsGetContent text tp rest) (textPartsGetContent text' tp' rest') := by
  have hnil : rest = [] ↔ rest' = [] := by
    rw [← List.length_eq_zero_iff, hrest.length_eq, List.length_eq_zero_iff]
  rw [Xplist.textPartsGetContent, Xplist.textPartsGetContent, h.length, h.begin.drop_eq]
  refine Related.ite hnil (fun _ => ?_) fun _ => ?_
  · exact (h.begin.byteAt_add tp'.length).bind fun _ _ _ => Related.ok rfl
  · refine (SameParts.copyParts (.cons h hrest) false).bind fun r r' hsame => ?_
    subst hsame
    exact Related.refl (fun _ => rfl) _

/-- A tag stands for the same.  Where there was an error the position does not matter. -/
def Content.Same (text text' : List UInt8) : Content → Content → Prop
  | .node data pos err, .node data' pos' err' =>
    data = data' ∧ err = err' ∧ (err = false → Ahead text text' pos pos')
  | .key name pos, .key name' pos' => name = name' ∧ Ahead text text' pos pos'
  | .close pos, .close pos' => Ahead text text' pos pos'
  | .fail _, .fail _ => True
  | _, _ => False

theorem Ahead.textContent (h : Ahead text text' pos pos') (tag : Tag) (emptyTag noText : XData)
    {full : TextPart → List UInt8 × Nat → Except Stop XData}
    (hfull : ∀ tp tp' content, tp.length = tp'.length → full tp content = full tp' content) :
    Related (Content.Same text text') (textContent text tag pos emptyTag noText full)
      (textContent text' tag pos' emptyTag noText full) := by
  rw [Xplist.textContent, Xplist.textContent]
  refine Related.ite Iff.rfl (fun _ => Related.ok ⟨rfl, rfl, fun _ => h⟩) fun _ => ?_
  refine (h.getTextParts tag.name tag.len true).bind fun r r' hr => ?_
  obtain ⟨o, q⟩ := r
  obtain ⟨o', q'⟩ := r'
  cases o <;> cases o' <;> try exact hr.elim
  case none.none => exact Related.ok trivial
  case some.some =>
    obtain ⟨hparts, hq⟩ := hr
    cases hparts with
    | nil => exact Related.ok ⟨rfl, rfl, fun _ => hq⟩
    | @cons tp tp' rest rest' htp hrest =>
      refine (htp.textPartsGetContent hrest).bind fun r r' hsame => ?_
      subst hsame
      cases r with
      | none => exact Related.ok trivial
      | some content =>
        simp only
        rw [hfull tp tp' content htp.length]
        exact (Related.refl (fun _ => rfl) _).bind fun _ _ hdata =>
          Related.ok ⟨hdata, rfl, fun _ => hq⟩

theorem Ahead.booleanContent (h : Ahead text text' pos pos') (tag : Tag) (boolval : UInt8) :
    Related (Content.Same text text') (booleanContent text tag pos boolval)
      (booleanContent text' tag pos' boolval) := by
  rw [Xplist.booleanContent, Xplist.booleanContent]
  refine Related.ite Iff.rfl (fun _ => Related.ok ⟨rfl, rfl, fun _ => h⟩) fun _ => ?_
  refine (h.getTextParts tag.name tag.len true).bind fun r r' hr => ?_
  obtain ⟨o, q⟩ := r
  obtain ⟨o', q'⟩ := r'
  cases o <;> cases o' <;> try exact hr.elim
  case none.none => exact Related.ok ⟨rfl, rfl, fun h => by cases h⟩
  case some.some => exact Related.ok ⟨rfl, rfl, fun _ => hr.2⟩

theorem Ahead.stringContent (h : Ahead text text' pos pos') (tag : Tag) (wantsKey : Bool) :
    Related (Content.Same text text') (stringContent text tag pos wantsKey)
      (stringContent text' tag pos' wantsKey) := by
  rw [Xplist.stringContent, Xplist.stringContent]
  refine Related.ite Iff.rfl (fun _ => Related.ok ⟨rfl, rfl, fun _ => h⟩) fun _ => ?_
  refine (h.getTextParts tag.name tag.len false).bind fun r r' hr => ?_
  obtain ⟨o, q⟩ := r
  obtain ⟨o', q'⟩ := r'
  cases o <;> cases o' <;> try exact hr.elim
  case none.none => exact Related.ok trivial
  case some.some =>
    obtain ⟨hparts, hq⟩ := hr
    refine (hparts.copyParts true).bind fun r r' hsame => ?_
    subst hsame
    cases r with
    | none => exact Related.ok trivial
    | some str =>
      exact Related.ite Iff.rfl (fun _ => Related.ok ⟨rfl, hq⟩)
        fun _ => Related.ok ⟨rfl, rfl, fun _ => hq⟩

theorem Ahead.readContent (h : Ahead text text' pos pos') (conv : Conv) (tag : Tag)
    (wantsKey : Bool) :
    Related (Content.Same text text') (readContent conv text tag pos wantsKey)
      (readContent conv text' tag pos' wantsKey) := by
  rw [Xplist.readContent, Xplist.readContent]
  refine Related.ite Iff.rfl (fun _ => Related.ok ⟨rfl, rfl, fun _ => h⟩) fun _ => ?_
  refine Related.ite Iff.rfl (fun _ => Related.ok ⟨rfl, rfl, fun _ => h⟩) fun _ => ?_
  refine Related.ite Iff.rfl (fun _ => h.textContent tag _ _ fun _ _ _ _ => rfl) fun _ => ?_
  refine Related.ite Iff.rfl (fun _ => h.textContent tag _ _ fun _ _ _ _ => rfl) fun _ => ?_
  refine Related.ite Iff.rfl (fun _ => h.booleanContent tag 1) fun _ => ?_
  refine Related.ite Iff.rfl (fun _ => h.booleanContent tag 0) fun _ => ?_
  refine Related.ite Iff.rfl (fun _ => h.stringContent tag wantsKey) fun _ => ?_
  refine Related.ite Iff.rfl (fun _ => h.textContent tag _ _ fun tp tp' content hlen => ?_)
    fun _ => ?_
  · rw [dataData, dataData, hlen]
  refine Related.ite Iff.rfl (fun _ => h.textContent tag _ _ fun tp tp' content hlen => ?_)
    fun _ => ?_
  · rw [dateData, dateData, hlen]
  exact Related.ite Iff.rfl (fun _ => Related.ok h) fun _ => Related.ok trivial

/-! ## The loop -/

/-- The same state but for `ctx->pos`. -/
def State.Like (s s' : State) : Prop := s' = { s with pos := s'.pos }

/-- The same state, and the same text in front of it, if there is another turn. -/
def State.Same (text text' : List UInt8) (s s' : State) : Prop :=
  s.Like s' ∧ (s.err = false → Ahead text text' s.pos s'.pos)

/-- A turn comes to the same. -/
def Next.Same (text text' : List UInt8) : Next → Next → Prop
  | .more s, .more s' => s.Same text text' s'
  | .leave s, .leave s' => s.Like s'
  | .out s, .out s' => s.Like s'
  | _, _ => False

variable {s s' : State}

theorem State.Like.fail (h : s.Like s') (pos pos' : Nat) :
    (s.fail pos).Same text text' (s'.fail pos') := by
  rw [State.fail, State.fail, h]
  rfl

theorem openPlist_same (hs : s.Like s') (h : Ahead text text' pos pos') (tag : Tag) :
    (openPlist s tag pos).Same text text' (openPlist s' tag pos') := by
  rw [hs, openPlist, openPlist]
  simp only
  split
  · rfl
  · split
    · rfl
    · exact ⟨rfl, fun _ => h⟩

theorem closePlist_same (hs : s.Like s') (h : Ahead text text' pos pos') :
    (closePlist s pos).Same text text' (closePlist s' pos') := by
  rw [hs, closePlist, closePlist]
  simp only
  split
  · rfl
  · split
    · exact ⟨rfl, fun _ => h⟩
    · rfl

theorem enter_same (h : s.Same text text' s') (data : XData) (isEmpty : Bool) (id : Nat) :
    (s.enter data isEmpty id).Same text text' (s'.enter data isEmpty id) := by
  obtain ⟨hs, hahead⟩ := h
  have hpos : (s.enter data isEmpty id).err = s.err := by
    rw [State.enter]
    split
    · split <;> rfl
    · rfl
  refine ⟨?_, fun herr => ?_⟩
  · rw [hs, State.Like, State.enter, State.enter]
    split
    · split <;> rfl
    · rfl
  · rw [enter_pos, enter_pos]
    exact hahead (hpos ▸ herr)

theorem enter_more (h : s.Same text text' s') (data : XData) (isEmpty : Bool) (id : Nat) :
    Related (Next.Same text text') (.ok (.more (s.enter data isEmpty id)) : Except Stop Next)
      (.ok (.more (s'.enter data isEmpty id))) := enter_same h data isEmpty id

theorem placeNode_same (h : s.Same text text' s') (data : XData) (isEmpty : Bool) :
    Related (Next.Same text text') (placeNode s data isEmpty) (placeNode s' data isEmpty) := by
  obtain ⟨hs, hahead⟩ := h
  obtain ⟨pos', rfl⟩ : ∃ pos', s' = { s with pos := pos' } := ⟨_, hs⟩
  obtain ⟨pos, err, nodes, plist, parent, keyname, hasContent, nodePath⟩ := s
  rw [placeNode, placeNode]
  simp only at hahead ⊢
  cases plist with
  | none =>
    refine Related.ite Iff.rfl (fun _ => Related.ok rfl) fun _ => enter_more ?_ data isEmpty _
    exact ⟨rfl, hahead⟩
  | some r =>
    cases parent with
    | none =>
      refine enter_more ?_ data isEmpty _
      exact ⟨rfl, hahead⟩
    | some p =>
      refine (Related.refl (fun _ => rfl) (attach nodes p keyname data)).bind fun r r' hsame => ?_
      subst hsame
      cases r with
      | none => exact Related.ok rfl
      | some nodes' =>
        refine enter_more ?_ data isEmpty _
        exact ⟨rfl, hahead⟩

theorem closeNode_same (h : s.Same text text' s') (name : List UInt8) :
    Related (Next.Same text text') (closeNode s name) (closeNode s' name) := by
  obtain ⟨hs, hahead⟩ := h
  obtain ⟨pos', rfl⟩ : ∃ pos', s' = { s with pos := pos' } := ⟨_, hs⟩
  obtain ⟨pos, err, nodes, plist, parent, keyname, hasContent, nodePath⟩ := s
  rw [closeNode, closeNode]
  simp only at hahead ⊢
  cases nodePath with
  | nil => exact Related.ok rfl
  | cons item path =>
    refine Related.ite Iff.rfl (fun _ => Related.ok rfl) fun _ => ?_
    cases parent.bind fun p => nodes[p]? with
    | none => trivial
    | some node =>
      exact Related.ite Iff.rfl (fun _ => Related.ok rfl) fun _ => Related.ok ⟨rfl, hahead⟩

theorem Ahead.nodeTag (h : Ahead text text' pos pos') (conv : Conv) (hs : s.Like s') (tag : Tag) :
    Related (Next.Same text text') (nodeTag conv text s tag pos)
      (nodeTag conv text' s' tag pos') := by
  obtain ⟨pos1, rfl⟩ : ∃ pos1, s' = { s with pos := pos1 } := ⟨_, hs⟩
  rw [Xplist.nodeTag, Xplist.nodeTag]
  refine (h.readContent conv tag _).bind fun r r' hr => ?_
  cases r <;> cases r' <;> try exact hr.elim
  case fail.fail => exact Related.ok rfl
  case key.key =>
    obtain ⟨rfl, hq⟩ := hr
    exact Related.ok ⟨rfl, fun _ => hq⟩
  case close.close =>
    refine closeNode_same ?_ tag.name.tail
    exact ⟨rfl, fun _ => hr⟩
  case node.node data q err data' q' err' =>
    obtain ⟨rfl, rfl, hq⟩ := hr
    refine placeNode_same ?_ data tag.isEmpty
    exact ⟨rfl, hq⟩

theorem Ahead.parseTag (h : Ahead text text' pos pos') (conv : Conv) (hs : s.Like s')
    (hlt : pos < text.length) :
    Related (Next.Same text text') (parseTag conv text s (pos + 1))
      (parseTag conv text' s' (pos' + 1)) := by
  rw [Xplist.parseTag, Xplist.parseTag]
  refine (h.readTag hlt).bind fun r r' hr => ?_
  cases hr with
  | none => exact Related.ok (hs.fail _ _)
  | @some a b hab =>
    obtain ⟨tag, q⟩ := a
    obtain ⟨tag', q'⟩ := b
    obtain ⟨htag, hq⟩ : tag = tag' ∧ Ahead text text' q q' := hab
    subst htag
    refine Related.ite Iff.rfl (fun _ => Related.ok (openPlist_same hs hq tag)) fun _ => ?_
    exact Related.ite Iff.rfl (fun _ => Related.ok (closePlist_same hs hq))
      fun _ => hq.nodeTag conv hs tag

theorem skip_same (hs : s.Like s') {r r' : Option Nat} (hr : Option.Rel (Ahead text text') r r') :
    (s.skip r).Same text text' (s'.skip r') := by
  cases hr with
  | none => exact hs.fail _ _
  | some hq =>
    rw [hs]
    exact ⟨rfl, fun _ => hq⟩

theorem Ahead.parseStep (conv : Conv) (h : Ahead text text' s.pos s'.pos) (hs : s.Like s') :
    Related (Next.Same text text') (parseStep conv text s) (parseStep conv text' s') := by
  rw [Xplist.parseStep, Xplist.parseStep]
  refine h.parseSkipWs.bind fun q q' hq => ?_
  refine Related.ite (hq.ge_iff 0) (fun _ => ?_) fun hlt => ?_
  · rw [hs]
    exact Related.ok rfl
  have hlt : q < text.length := by omega
  refine hq.byteAt.bind fun c c' hsame => ?_
  subst hsame
  refine Related.ite Iff.rfl (fun _ => ?_) fun _ => ?_
  · exact (hq.findNext _ false).bind fun _ _ _ => Related.ok (hs.fail _ _)
  refine Related.ite (hq.ge_iff 1) (fun _ => Related.ok (hs.fail _ _)) fun hlt1 => ?_
  refine (hq.byteAt_add 1).bind fun d d' hsame => ?_
  subst hsame
  have hq1 := hq.add (n := 1) hlt
  refine Related.ite Iff.rfl (fun _ => ?_) fun _ => ?_
  · exact hq1.skipInstruction.bind fun _ _ hr => Related.ok (skip_same hs hr)
  refine Related.ite Iff.rfl (fun _ => ?_) fun _ => hq.parseTag conv hs hlt
  exact hq1.skipSpecial.bind fun _ _ hr => Related.ok (skip_same hs hr)

theorem State.Like.finish (h : s.Like s') : s.finish.Like s'.finish := by
  rw [h, State.Like, State.finish, State.finish]
  split
  · rfl
  · rfl

/-- **The rest of the parse depends on the state and on what is in front of it.** -/
theorem State.Same.parseLoop (conv : Conv) (h : s.Same text text' s') (fuel : Nat) :
    Related State.Like (parseLoop conv text fuel s) (parseLoop conv text' fuel s') := by
  induction fuel generalizing s s' with
  | zero => trivial
  | succ fuel ih =>
    obtain ⟨hs, hahead⟩ := h
    rw [Xplist.parseLoop, Xplist.parseLoop]
    have herr' : s'.err = s.err := by rw [hs]
    refine Related.ite ?_ (fun hmore => ?_) fun _ => Related.ok hs.finish
    · rw [herr']
      refine and_congr_left fun herr => ?_
      have := (hahead herr).ge_iff 0
      omega
    · refine ((hahead hmore.2).parseStep conv hs).bind fun r r' hr => ?_
      cases r <;> cases r' <;> try exact hr.elim
      case more.more => exact ih hr
      case leave.leave => exact Related.ok (State.Like.finish hr)
      case out.out => exact Related.ok hr

end Scan

end IDeviceStack.Libplist.Xplist
