/-
# `Libplist.Xplist.Comments` — a comment in the text of an element

A comment cuts a text in two, and each type of node uses the parts in a way of its own:
strings put all of them together, each with its entities replaced; numbers put them
together as they are; data and dates look at the first part alone.  Blanks are skipped
before the first part only.

**Proved here.**  `readContent_body`.
-/
import IDeviceStack.Libplist.Xplist.Entities
import IDeviceStack.Libplist.Xplist.Parts

namespace IDeviceStack.Libplist.Xplist

open List

/-! ## Entities -/

/-- The position between `a` and `b` is behind an `&` and not behind the next `;`. -/
def InsideReference (a b : List UInt8) : Prop :=
  ∃ x y, a = x ++ ch '&' :: y ∧ ch ';' ∉ y ∧ ch ';' ∈ b

/-- `unescape_entities`, behind what is done already. -/
def unescapeFrom (done s : List UInt8) : Except Stop (Option (List UInt8)) :=
  unescapePieces done (cut s)

variable {s : List UInt8}

theorem unescapePieces_cutLoop (done : List UInt8) {n : Nat} (hn : s.length ≤ n) :
    unescapePieces done (cutLoop n s) = unescapeFrom done s :=
  (unescapeLoop_cut done (Nat.lt_succ_self _) hn).symm.trans
    (unescapeLoop_cut done (Nat.lt_succ_self _) (Nat.le_refl _))

theorem unescapeFrom_nil (done : List UInt8) : unescapeFrom done [] = .ok (some done) := rfl

variable {c : UInt8}

theorem unescapeFrom_byte (done : List UInt8) (hc : c ≠ ch '&') (s : List UInt8) :
    unescapeFrom done (c :: s) = unescapeFrom (done ++ [c]) s := by
  rw [unescapeFrom, cut, length_cons, cutLoop, if_pos hc, unescapePieces,
    unescapePieces_cutLoop _ (Nat.le_refl _)]

theorem unescapeFrom_ref (done : List UInt8) {name : List UInt8} (hname : ch ';' ∉ name)
    (s : List UInt8) :
    unescapeFrom done (ch '&' :: (name ++ ch ';' :: s)) =
      match codeRef name with
      | none => .ok none
      | some bytes =>
        if name.length + 2 < 2 ^ 31 then unescapeFrom (done ++ bytes) s else .error .overflow := by
  rw [unescapeFrom, cut, length_cons]
  rcases cutLoop_amp (name ++ ch ';' :: s).length (name ++ ch ';' :: s) with
    ⟨name', rest, hname', hsplit, hcut⟩ | ⟨hno, -⟩
  · obtain ⟨rfl, rfl⟩ := name_unique (fun c hc h => hname (h ▸ hc)) hname' hsplit
    rw [hcut, unescapePieces]
    cases codeRef name with
    | none => rfl
    | some bytes =>
      dsimp only
      rw [unescapePieces_cutLoop _ (show s.length ≤ (name ++ ch ';' :: s).length by
        rw [length_append, length_cons]
        omega)]
  · exact absurd (by simp) hno

theorem unescapeFrom_unended (done : List UInt8) (hs : ch ';' ∉ s) :
    unescapeFrom done (ch '&' :: s) = if s = [] then .ok (some (done ++ [ch '&'])) else .ok none := by
  rw [unescapeFrom, cut, length_cons]
  rcases cutLoop_amp s.length s with ⟨name, rest, -, rfl, -⟩ | ⟨-, hcut⟩
  · exact absurd (by simp) hs
  · rw [hcut, unescapePieces]

theorem unescapePieces_append (x done : List UInt8) (ps : List Piece) :
    unescapePieces (x ++ done) ps = (unescapePieces done ps).map (Option.map (x ++ ·)) := by
  induction ps generalizing done with
  | nil => rfl
  | cons p ps ih =>
    cases p with
    | byte c =>
      rw [unescapePieces, unescapePieces, append_assoc]
      exact ih (done ++ [c])
    | ref name =>
      rw [unescapePieces, unescapePieces]
      cases codeRef name with
      | none => rfl
      | some bytes =>
        dsimp only
        split
        · rw [append_assoc]
          exact ih (done ++ bytes)
        · rfl
    | unended s =>
      rw [unescapePieces, unescapePieces]
      split
      · rw [append_assoc]
        rfl
      · rfl

theorem unescapeFrom_eq (done s : List UInt8) :
    unescapeFrom done s = (unescapeEntities s).map (Option.map (done ++ ·)) := by
  have h := unescapePieces_append done [] (cut s)
  rwa [append_nil, ← unescapeEntities_cut] at h

variable {a b : List UInt8}

theorem InsideReference.tail {x : List UInt8} (h : InsideReference a b) :
    InsideReference (x ++ a) b := by
  obtain ⟨y, z, rfl, hz, hb⟩ := h
  exact ⟨x ++ y, z, by rw [append_assoc], hz, hb⟩

theorem unescapeFrom_append {n : Nat} {a b done r : List UInt8} (hn : a.length ≤ n)
    (hout : ¬ InsideReference a b) (h : unescapeFrom done (a ++ b) = .ok (some r)) :
    ∃ x, unescapeFrom done a = .ok (some x) ∧ unescapeFrom x b = .ok (some r) := by
  induction n generalizing a done with
  | zero =>
    obtain rfl : a = [] := length_eq_zero_iff.mp (by omega)
    exact ⟨done, rfl, h⟩
  | succ n ih =>
    match a, hn, hout, h with
    | [], _, _, h => exact ⟨done, rfl, h⟩
    | c :: a, hn, hout, hrun =>
      rw [length_cons] at hn
      by_cases hc : c = ch '&'
      · subst hc
        by_cases hsemi : ch ';' ∈ a
        · -- the reference is in `a`, and the rest goes on behind it
          obtain ⟨name, rest, rfl, hname⟩ := eq_append_cons_of_mem hsemi
          rw [cons_append, append_assoc, cons_append, unescapeFrom_ref done hname] at hrun
          rw [unescapeFrom_ref done hname]
          cases hcode : codeRef name with
          | none =>
            rw [hcode] at hrun
            cases hrun
          | some bytes =>
            rw [hcode] at hrun
            dsimp only at hrun ⊢
            split at hrun
            · rename_i hshort
              rw [if_pos hshort]
              rw [length_append, length_cons] at hn
              refine ih (by omega) (fun hin => hout ?_) hrun
              have htail := hin.tail (x := ch '&' :: (name ++ [ch ';']))
              simpa using htail
            · cases hrun
        · by_cases hsemi' : ch ';' ∈ b
          · exact absurd ⟨[], a, rfl, hsemi, hsemi'⟩ hout
          · have hno : ch ';' ∉ a ++ b := by simp [hsemi, hsemi']
            rw [cons_append, unescapeFrom_unended done hno] at hrun
            split at hrun
            · rename_i hnil
              obtain ⟨rfl, rfl⟩ := append_eq_nil_iff.mp hnil
              rw [unescapeFrom_unended done (by simp), if_pos rfl]
              exact ⟨_, rfl, hrun⟩
            · cases hrun
      · rw [cons_append, unescapeFrom_byte _ hc] at hrun
        rw [unescapeFrom_byte _ hc]
        exact ih (by omega) (fun hin => hout (hin.tail (x := [c]))) hrun

variable {r : List UInt8}

/-- **Entities on both sides of a cut.** -/
theorem unescapeEntities_append (hout : ¬ InsideReference a b)
    (h : unescapeEntities (a ++ b) = .ok (some r)) :
    ∃ x y, unescapeEntities a = .ok (some x) ∧ unescapeEntities b = .ok (some y) ∧ r = x ++ y := by
  rw [unescapeEntities_cut] at h
  obtain ⟨x, hx, hr⟩ := unescapeFrom_append (Nat.le_refl _) hout h
  rw [unescapeFrom_eq] at hr
  cases hb : unescapeEntities b with
  | error stop =>
    rw [hb] at hr
    cases hr
  | ok o =>
    rw [hb] at hr
    cases o with
    | none => cases hr
    | some y =>
      cases hr
      exact ⟨x, y, by rw [unescapeEntities_cut]; exact hx, rfl, rfl⟩

/-! ## What an element makes of its parts -/

/-- The elements with a text. -/
inductive Element where
  | string
  | key
  | integer
  | real
  | date
  | data
  deriving DecidableEq, Repr

def Element.name : Element → List UInt8
  | .string => lit "string"
  | .key => lit "key"
  | .integer => lit "integer"
  | .real => lit "real"
  | .date => lit "date"
  | .data => lit "data"

def Element.tag (e : Element) : Tag := ⟨e.name, e.name.length, false⟩

/-- Are blanks before the text skipped? -/
def Element.skipsWs : Element → Bool
  | .string | .key => false
  | .integer | .real | .date | .data => true

def firstBytes : List Part → List UInt8
  | [] => []
  | p :: _ => p.bytes

/-- The value of `<data>`, by its first part. -/
def blobData (first : List UInt8) : Except Stop XData :=
  if (base64decode first).length < 2 ^ 31 then
    .ok (.scalar (.data (base64decode first)) (base64decode first).length)
  else .error .overflow

/-- The time of a `<date>`, by its first part and the length of all of them. -/
def dateTime (conv : Conv) (first : List UInt8) (length : Nat) : Int :=
  if 11 ≤ length ∧ length < 32 then conv.timegm (cstr first) else 0

/-- A node with a value. -/
def valueContent (pos : Nat) (data : Except Stop XData) : Except Stop Content := do
  let data ← data
  .ok (.node data pos false)

/-- A node with a string, or a key. -/
def stringNode (wantsKey : Bool) (str : List UInt8) (pos : Nat) : Content :=
  if wantsKey then .key str pos else .node (.scalar (.string str) str.length) pos false

def stringOf (wantsKey : Bool) (ps : List Part) (pos : Nat) : Except Stop Content := do
  match ← copyShown true ps with
  | none => .ok (.fail pos)
  | some str => .ok (stringNode wantsKey str pos)

/-- The content of an element with the parts `ps`, which ends at `pos`. -/
def Element.content (conv : Conv) (wantsKey : Bool) (ps : List Part) (pos : Nat) :
    Element → Except Stop Content
  | .string => stringOf false ps pos
  | .key => stringOf wantsKey ps pos
  | .integer => valueContent pos (.ok (integerData (cstr (shownBytes ps))))
  | .real => valueContent pos (.ok (.scalar (.real (conv.atof (cstr (shownBytes ps)))) 8))
  | .data => valueContent pos (blobData (firstBytes ps))
  | .date => valueContent pos (.ok (.scalar (.date (conv.toDouble
      (dateTime conv (firstBytes ps) (shownBytes ps).length - 978307200))) 8))

/-- What `atof` is known for: there is 0 where there is no number, blanks before it do not count, and
it goes no further than to a `NUL`, a `<` or a `]`. -/
structure Conv.Atof (conv : Conv) : Prop where
  none : conv.atof [] = 0
  blanks : ∀ w s, (∀ c ∈ w, isBlank c) → conv.atof (w ++ s) = conv.atof s
  stop : ∀ s c r, c = 0 ∨ c = ch '<' ∨ c = ch ']' → conv.atof (s ++ c :: r) = conv.atof s

theorem Ends.same {α : Type} {f : List UInt8 → α}
    (hf : ∀ s c r, c = 0 ∨ c = ch '<' ∨ c = ch ']' → f (s ++ c :: r) = f s) {s buf : List UInt8}
    (h : Ends s buf) : f buf = f (cstr s) := by
  have hcstr (x : List UInt8) : f x = f (cstr x) := by
    by_cases hx : NulFree x
    · rw [cstr_of_nulFree hx]
    · obtain ⟨r, hr⟩ := nul_split hx
      conv_lhs => rw [hr]
      exact hf _ 0 r (.inl rfl)
  rcases h with h | ⟨c, r, rfl, hc⟩
  · rw [hcstr buf, h]
  · rw [hf s c r (.inr hc), hcstr s]

theorem integerData_stop (s : List UInt8) (c : UInt8) (r : List UInt8)
    (hc : c = 0 ∨ c = ch '<' ∨ c = ch ']') : integerData (s ++ c :: r) = integerData s := by
  have hends : EndsNumber c := by
    rcases hc with rfl | rfl | rfl
    · decide
    · decide
    · decide
  have hminus : (s ++ c :: r).headD 0 = ch '-' ↔ s.headD 0 = ch '-' :=
    headD_stop (by decide) hends.2.2.1.symm r
  have hplus : (s ++ c :: r).headD 0 = ch '+' ↔ s.headD 0 = ch '+' :=
    headD_stop (by decide) hends.2.2.2.symm r
  have hstop (x : List UInt8) : strtoull 0 (x ++ c :: r) = strtoull 0 x :=
    strtoull_stop (by decide) hends x r
  rw [integerData, integerData]
  simp only [hminus, hplus]
  by_cases hsign : s.headD 0 = ch '-' ∨ s.headD 0 = ch '+'
  · obtain ⟨x, s, rfl⟩ : ∃ x s', s = x :: s' := by
      cases s with
      | nil => exact absurd hsign (by decide)
      | cons x s => exact ⟨x, s, rfl⟩
    simp only [if_pos hsign, cons_append, tail_cons, hstop]
  · simp only [if_neg hsign, hstop]

theorem decodeLoop_cstr (s : List UInt8) (tmpval : List Digit) (out : List UInt8) :
    decodeLoop s tmpval out = decodeLoop (cstr s) tmpval out := by
  induction s generalizing tmpval out with
  | nil => rfl
  | cons c s ih =>
    by_cases hc : c = 0
    · subst hc
      rfl
    · have hcons : cstr (c :: s) = c :: cstr s := takeWhile_cons_of_pos (by simpa using hc)
      rw [hcons, decodeLoop, decodeLoop, if_neg hc, if_neg hc]
      simp only [← ih]

theorem base64decode_congr {x y : List UInt8} (h : cstr x = cstr y) :
    base64decode x = base64decode y := by
  rw [base64decode, base64decode, decodeLoop_cstr x, decodeLoop_cstr y, h]

section

variable {text : List UInt8} {pos : Nat}

theorem textContent_shows {tag : Tag} (htag : tag.isEmpty = false) {parts : List TextPart} {q : Nat}
    (hparts : getTextParts text tag.name tag.len true pos = .ok (some parts, q)) {ps : List Part}
    (hshown : List.Forall₂ (Shows text) parts ps) {emptyTag noText : XData}
    {full : TextPart → List UInt8 × Nat → Except Stop XData} (data : List Part → Except Stop XData)
    (hnone : data [] = .ok noText)
    (hfull : ∀ tp p ps buf, Ends (shownBytes (p :: ps)) buf →
      cstr (buf.take tp.length) = cstr p.bytes → tp.length = p.bytes.length →
      full tp (buf, (shownBytes (p :: ps)).length) = data (p :: ps)) :
    textContent text tag pos emptyTag noText full = valueContent q (data ps) := by
  rw [textContent, htag]
  simp only [Bool.false_eq_true, if_false, hparts, ok_bind]
  cases hshown with
  | nil =>
    rw [hnone]
    rfl
  | cons hp hrest =>
    obtain ⟨buf, hcontent, hends, hfirst, hlen⟩ := textPartsGetContent_shows (.cons hp hrest)
    simp only [hcontent, ok_bind, hfull _ _ _ _ hends hfirst hlen]
    rfl

/-- **The content of an element**, by the parts of its text. -/
theorem readContent_body {conv : Conv} (hconv : conv.Atof) (e : Element) {w s t : List UInt8}
    (hw : ∀ c ∈ w, isBlank c) (items : List (Item × List UInt8)) (hok : BodyOk t items)
    (wantsKey : Bool) (h : text.drop pos = bodyBytes t items ++ closing e.name w s) :
    readContent conv text e.tag pos wantsKey =
      e.content conv wantsKey (partsOf (if e.skipsWs then t.dropWhile isBlank else t) items)
        (pos + (bodyBytes t items).length + (e.name.length + w.length + 3)) := by
  have htag : NulFree e.name := by
    cases e
    all_goals decide
  obtain ⟨parts, hparts, hshown⟩ := getTextParts_body htag hw items hok e.skipsWs h
  have hstring (hskip : e.skipsWs = false) (hname : e.name = lit "string" ∨ e.name = lit "key") :
      stringContent text e.tag pos wantsKey =
        stringOf (e.name = lit "key" && wantsKey) (partsOf t items)
          (pos + (bodyBytes t items).length + (e.name.length + w.length + 3)) := by
    rw [hskip] at hparts hshown
    rw [stringContent]
    simp only [Element.tag, Bool.false_eq_true, if_false, hparts, ok_bind,
      copyParts_shows true hshown]
    rw [stringOf]
    cases copyShown true (partsOf t items) with
    | error stop => rfl
    | ok o =>
      cases o with
      | none => rfl
      | some str =>
        simp only [ok_bind, stringNode, Bool.and_eq_true, decide_eq_true_eq]
        by_cases hkey : e.name = lit "key" ∧ wantsKey = true
        · exact (if_pos hkey).trans (by rw [if_pos hkey])
        · exact (if_neg hkey).trans (by rw [if_neg hkey])
  cases e with
  | string =>
    rw [readContent, if_neg (by decide), if_neg (by decide), if_neg (by decide),
      if_neg (by decide), if_neg (by decide), if_neg (by decide), if_pos (by decide)]
    exact hstring rfl (.inl rfl)
  | key =>
    rw [readContent, if_neg (by decide), if_neg (by decide), if_neg (by decide),
      if_neg (by decide), if_neg (by decide), if_neg (by decide), if_pos (by decide)]
    exact hstring rfl (.inr rfl)
  | integer =>
    rw [readContent, if_neg (by decide), if_neg (by decide), if_pos (by decide)]
    refine textContent_shows rfl hparts hshown
      (fun ps => .ok (integerData (cstr (shownBytes ps)))) rfl fun tp p ps buf hends _ _ => ?_
    rw [hends.same integerData_stop]
  | real =>
    rw [readContent, if_neg (by decide), if_neg (by decide), if_neg (by decide), if_pos (by decide)]
    refine textContent_shows rfl hparts hshown
      (fun ps => .ok (.scalar (.real (conv.atof (cstr (shownBytes ps)))) 8)) ?_
      fun tp p ps buf hends _ _ => ?_
    · exact congrArg (fun v => Except.ok (XData.scalar (.real v) 8)) hconv.none
    · rw [hends.same hconv.stop]
  | data =>
    rw [readContent, if_neg (by decide), if_neg (by decide), if_neg (by decide), if_neg (by decide),
      if_neg (by decide), if_neg (by decide), if_neg (by decide), if_pos (by decide)]
    refine textContent_shows rfl hparts hshown (fun ps => blobData (firstBytes ps)) rfl
      fun tp p ps buf _ hfirst hlen => ?_
    have hdecode : (if tp.length > 0 then base64decode (buf.take tp.length) else []) =
        base64decode p.bytes := by
      rw [base64decode_congr hfirst]
      split
      · rfl
      · have hnil : p.bytes = [] := length_eq_zero_iff.mp (by omega)
        rw [hnil]
        rfl
    rw [dataData, blobData, firstBytes]
    simp only [hdecode]
  | date =>
    rw [readContent, if_neg (by decide), if_neg (by decide), if_neg (by decide),
      if_neg (by decide), if_neg (by decide), if_neg (by decide), if_neg (by decide),
      if_neg (by decide), if_pos (by decide)]
    refine textContent_shows rfl hparts hshown
      (fun ps => .ok (.scalar (.date (conv.toDouble
        (dateTime conv (firstBytes ps) (shownBytes ps).length - 978307200))) 8)) rfl
      fun tp p ps buf _ hfirst hlen => ?_
    have hle : tp.length ≤ (shownBytes (p :: ps)).length := by
      rw [hlen, shownBytes, flatMap_cons, length_append]
      omega
    have hstrval : cstr ((buf.take (shownBytes (p :: ps)).length).take tp.length) =
        cstr p.bytes := by
      rw [take_take, Nat.min_eq_left hle, hfirst]
    rw [dateData, dateTime]
    simp only [hstrval, firstBytes]

end

/-! ## A text in a text -/

/-- The bytes of texts with an item behind each. -/
def beforeBytes : List (List UInt8 × Item) → List UInt8
  | [] => []
  | (t, item) :: pre => t ++ (item.bytes ++ beforeBytes pre)

def BeforeOk (pre : List (List UInt8 × Item)) : Prop :=
  ∀ p ∈ pre, p.2.Closed ∧ ∀ c ∈ p.1, c ≠ ch '<'

/-- The first text, if `pre` is before `t`. -/
def leadText : List (List UInt8 × Item) → List UInt8 → List UInt8
  | [], t => t
  | (t₀, _) :: _, _ => t₀

/-- The items, if `pre` is before `t`. -/
def leadItems : List (List UInt8 × Item) → List UInt8 → List (Item × List UInt8) →
    List (Item × List UInt8)
  | [], _, items => items
  | (_, item) :: pre, t, items => (item, leadText pre t) :: leadItems pre t items

theorem bodyBytes_lead (pre : List (List UInt8 × Item)) (t : List UInt8)
    (items : List (Item × List UInt8)) :
    bodyBytes (leadText pre t) (leadItems pre t items) = beforeBytes pre ++ bodyBytes t items := by
  induction pre with
  | nil => rfl
  | cons p pre ih =>
    obtain ⟨t0, item⟩ := p
    rw [leadText, leadItems, bodyBytes, ih, beforeBytes]
    simp only [append_assoc]

variable {pre : List (List UInt8 × Item)} {items : List (Item × List UInt8)}

theorem bodyOk_lead {t : List UInt8} (hpre : BeforeOk pre) (hok : BodyOk t items) :
    BodyOk (leadText pre t) (leadItems pre t items) := by
  induction pre with
  | nil => exact hok
  | cons p pre ih =>
    obtain ⟨t0, item⟩ := p
    obtain ⟨hitem, ht0⟩ := hpre (t0, item) mem_cons_self
    have hrest := ih fun q hq => hpre q (mem_cons_of_mem _ hq)
    refine ⟨ht0, fun q hq => ?_⟩
    rcases mem_cons.mp hq with rfl | hq
    · exact ⟨hitem, hrest.1⟩
    · exact hrest.2 q hq

/-- The parts of `pre`, behind the blanks it begins with if these are skipped. -/
def beforeParts : List (List UInt8 × Item) → List Part
  | [] => []
  | (t, item) :: pre => itemParts t item ++ beforeParts pre

def skipBefore : List (List UInt8 × Item) → List (List UInt8 × Item)
  | [] => []
  | (t₀, item) :: pre => (t₀.dropWhile isBlank, item) :: pre

theorem partsOf_lead (pre : List (List UInt8 × Item)) (t : List UInt8)
    (items : List (Item × List UInt8)) :
    partsOf (leadText pre t) (leadItems pre t items) = beforeParts pre ++ partsOf t items := by
  induction pre with
  | nil => rfl
  | cons p pre ih =>
    obtain ⟨t0, item⟩ := p
    rw [leadText, leadItems, partsOf, ih, beforeParts, append_assoc]

theorem partsOf_skip (hpre : pre ≠ []) (t : List UInt8) (items : List (Item × List UInt8)) :
    partsOf ((leadText pre t).dropWhile isBlank) (leadItems pre t items) =
      beforeParts (skipBefore pre) ++ partsOf t items := by
  cases pre with
  | nil => exact absurd rfl hpre
  | cons p pre =>
    obtain ⟨t0, item⟩ := p
    rw [leadText, leadItems, partsOf, partsOf_lead, skipBefore, beforeParts, append_assoc]

variable {ps : List Part}

/-- What the items show, and the texts behind them. -/
def itemsBytes : List (Item × List UInt8) → List UInt8
  | [] => []
  | (.comment _, t) :: items => t ++ itemsBytes items
  | (.cdata d, t) :: items => d ++ (t ++ itemsBytes items)

theorem shownBytes_append (x y : List Part) : shownBytes (x ++ y) = shownBytes x ++ shownBytes y :=
  flatMap_append

theorem shownBytes_textPart (t : List UInt8) : shownBytes (textPart t) = t := by
  rw [textPart]
  split
  · rename_i h
    rw [h]
    rfl
  · exact append_nil t

theorem shownBytes_partsOf (t : List UInt8) (items : List (Item × List UInt8)) :
    shownBytes (partsOf t items) = t ++ itemsBytes items := by
  induction items generalizing t with
  | nil => rw [partsOf, shownBytes_textPart, itemsBytes, append_nil]
  | cons p items ih =>
    obtain ⟨item, t'⟩ := p
    rw [partsOf, shownBytes_append, ih]
    cases item with
    | comment c => simp [itemParts, shownBytes, itemsBytes]
    | cdata d =>
      rw [itemParts, shownBytes_append, shownBytes_textPart, itemsBytes]
      simp [shownBytes]

theorem firstBytes_append {x : List Part} (hx : x ≠ []) (y : List Part) :
    firstBytes (x ++ y) = firstBytes x := by
  cases x with
  | nil => exact absurd rfl hx
  | cons p x => rfl

theorem beforeParts_ne_nil (hpre : pre ≠ []) : beforeParts (skipBefore pre) ≠ [] := by
  cases pre with
  | nil => exact absurd rfl hpre
  | cons p pre =>
    obtain ⟨t0, item⟩ := p
    cases item with
    | comment c => simp [skipBefore, beforeParts, itemParts]
    | cdata d => simp [skipBefore, beforeParts, itemParts]

/-! ## Strings -/

theorem copyShown_cons_eq {u : Bool} {p : Part} :
    copyShown u (p :: ps) = .ok (some r) ↔ ∃ x y, shownCopy u p = .ok (some x) ∧
      copyShown u ps = .ok (some y) ∧ r = x ++ y := by
  rw [copyShown]
  cases hp : shownCopy u p with
  | error stop => simp [bind, Except.bind]
  | ok o =>
    cases o with
    | none => simp [bind, Except.bind]
    | some x =>
      cases hps : copyShown u ps with
      | error stop => simp [bind, Except.bind]
      | ok o' =>
        cases o' with
        | none => simp [bind, Except.bind]
        | some y => simp [bind, Except.bind, eq_comm]

theorem copyShown_append_eq {u : Bool} {qs : List Part} :
    copyShown u (ps ++ qs) = .ok (some r) ↔ ∃ x y, copyShown u ps = .ok (some x) ∧
      copyShown u qs = .ok (some y) ∧ r = x ++ y := by
  induction ps generalizing r with
  | nil =>
    constructor
    · intro h
      exact ⟨[], r, rfl, h, rfl⟩
    · rintro ⟨x, y, hx, hy, rfl⟩
      cases hx
      exact hy
  | cons p ps ih =>
    rw [cons_append, copyShown_cons_eq]
    constructor
    · rintro ⟨x, z, hx, hz, rfl⟩
      obtain ⟨y, w, hy, hw, rfl⟩ := ih.mp hz
      exact ⟨x ++ y, w, copyShown_cons_eq.mpr ⟨x, y, hx, hy, rfl⟩, hw, (append_assoc x y w).symm⟩
    · rintro ⟨z, w, hz, hw, rfl⟩
      obtain ⟨x, y, hx, hy, rfl⟩ := copyShown_cons_eq.mp hz
      exact ⟨x, y ++ w, hx, ih.mpr ⟨y, w, hy, hw, rfl⟩, append_assoc x y w⟩

/-- The parts behind the first text. -/
def partsBehind : List (Item × List UInt8) → List Part
  | [] => []
  | (.comment _, t) :: items => partsOf t items
  | (.cdata d, t) :: items => ⟨d, true⟩ :: partsOf t items

theorem copyShown_textPart (t : List UInt8) (r : List UInt8) :
    copyShown true (textPart t) = .ok (some r) ↔ unescapeEntities (strncpy t) = .ok (some r) := by
  rw [textPart]
  split
  · rename_i h
    rw [h]
    exact Iff.rfl
  · rw [copyShown_cons_eq]
    constructor
    · rintro ⟨x, y, hx, hy, rfl⟩
      cases hy
      rw [append_nil]
      exact hx
    · intro h
      exact ⟨r, [], h, rfl, (append_nil r).symm⟩

theorem copyShown_partsOf (t : List UInt8) (items : List (Item × List UInt8)) (r : List UInt8) :
    copyShown true (partsOf t items) = .ok (some r) ↔
      ∃ x y, unescapeEntities (strncpy t) = .ok (some x) ∧
        copyShown true (partsBehind items) = .ok (some y) ∧ r = x ++ y := by
  cases items with
  | nil =>
    rw [partsOf, copyShown_textPart]
    constructor
    · intro h
      exact ⟨r, [], h, rfl, (append_nil r).symm⟩
    · rintro ⟨x, y, hx, hy, rfl⟩
      cases hy
      rw [append_nil]
      exact hx
  | cons p items =>
    obtain ⟨item, t'⟩ := p
    cases item with
    | comment c => exact copyShown_cons_eq
    | cdata d =>
      rw [partsOf, itemParts, append_assoc, copyShown_append_eq]
      simp only [copyShown_textPart]
      rfl

theorem InsideReference.congr {b' : List UInt8} (h : InsideReference a b)
    (hb : ch ';' ∈ b → ch ';' ∈ b') : InsideReference a b' := by
  obtain ⟨x, y, ha, hy, hmem⟩ := h
  exact ⟨x, y, ha, hy, hb hmem⟩

theorem mem_of_mem_strncpy (hc : c ≠ 0) (h : c ∈ strncpy s) : c ∈ s := by
  rw [strncpy, mem_append] at h
  rcases h with h | h
  · exact ( takeWhile_prefix _).subset h
  · exact absurd (eq_of_mem_replicate h) hc

theorem strncpy_append (b : List UInt8) :
    strncpy (a ++ b) =
      if NulFree a then a ++ strncpy b else strncpy a ++ List.replicate b.length 0 := by
  rw [strncpy, cstr_append]
  split
  · rw [strncpy, append_assoc, length_append, length_append, Nat.add_sub_add_left]
  · have hle : (cstr a).length ≤ a.length := ( takeWhile_prefix _).length_le
    rw [strncpy, append_assoc, replicate_append_replicate, length_append]
    congr 2
    omega

theorem unescapeEntities_zeros (n : Nat) :
    unescapeEntities (List.replicate n 0) = .ok (some (List.replicate n 0)) := by
  rw [unescapeEntities_cut, ← unescapeFrom]
  suffices h : ∀ done, unescapeFrom done (List.replicate n 0) =
      .ok (some (done ++ List.replicate n 0)) from h []
  induction n with
  | zero =>
    intro done
    rw [replicate_zero, unescapeFrom_nil, append_nil]
  | succ n ih =>
    intro done
    rw [replicate_succ, unescapeFrom_byte _ (by decide), ih, append_assoc]
    rfl

theorem utf8Bytes_head {v : Nat} (hv : v ≠ 0) (hmax : v ≤ 0x10FFFF) :
    (utf8Bytes v).headD 0 ≠ 0 := by
  have m7 (x : Nat) : x &&& 0x7 = x % 8 := Bplist.and_low x 3
  have mF (x : Nat) : x &&& 0xF = x % 16 := Bplist.and_low x 4
  have m1F (x : Nat) : x &&& 0x1F = x % 32 := Bplist.and_low x 5
  have m7F (x : Nat) : x &&& 0x7F = x % 128 := Bplist.and_low x 7
  have hzero {n : Nat} (hn : n ≠ 0) (hlt : n < 256) : UInt8.ofNat n ≠ 0 := by
    intro h
    have hnat := congrArg UInt8.toNat h
    rw [UInt8.toNat_ofNat', Nat.mod_eq_of_lt hlt] at hnat
    exact hn hnat
  rw [utf8Bytes]
  split
  · exact hzero (by omega) (by rw [m7]; omega)
  split
  · exact hzero (by omega) (by rw [mF]; omega)
  split
  · exact hzero (by omega) (by rw [m1F]; omega)
  · exact hzero (by rw [m7F]; omega) (by rw [m7F]; omega)

theorem codeRef_head {name bytes : List UInt8} (h : codeRef name = some bytes) :
    bytes.headD 0 ≠ 0 := by
  have hnumber (base : Nat) (ds : List UInt8) (hds : numberRef base ds = some bytes) :
      bytes.headD 0 ≠ 0 := by
    rw [numberRef] at hds
    simp only at hds
    split at hds
    · cases hds
    · rename_i hval
      cases hds
      exact utf8Bytes_head (by omega) (by omega)
  by_cases hhash : name.headD 0 = ch '#'
  · obtain ⟨ds, rfl⟩ : ∃ ds, name = ch '#' :: ds := by
      cases name with
      | nil => exact absurd hhash (by decide)
      | cons c ds => exact ⟨ds, congrArg (· :: ds) hhash⟩
    rw [codeRef_number] at h
    split at h
    · cases h
    split at h
    · exact hnumber 16 _ h
    · exact hnumber 10 _ h
  · rw [codeRef] at h
    split at h
    · cases h
    rw [entityBytes] at h
    simp only [if_neg hhash] at h
    split_ifs at h
    all_goals
      cases h
      decide

theorem unescapeEntities_head {s r : List UInt8} (h : unescapeEntities s = .ok (some r))
    (hs : s.headD 0 ≠ 0) : r.headD 0 ≠ 0 := by
  cases s with
  | nil => exact absurd rfl hs
  | cons c s =>
    have hc : c ≠ 0 := hs
    rw [unescapeEntities_cut, ← unescapeFrom] at h
    have hbehind {x t : List UInt8} (hx : x.headD 0 ≠ 0)
        (hrun : unescapeFrom x t = .ok (some r)) : r.headD 0 ≠ 0 := by
      rw [unescapeFrom_eq] at hrun
      cases ht : unescapeEntities t with
      | error stop =>
        rw [ht] at hrun
        cases hrun
      | ok o =>
        rw [ht] at hrun
        cases o with
        | none => cases hrun
        | some y =>
          cases hrun
          cases x with
          | nil => exact absurd rfl hx
          | cons a x => exact hx
    by_cases hamp : c = ch '&'
    · subst hamp
      by_cases hsemi : ch ';' ∈ s
      · obtain ⟨name, rest, rfl, hname⟩ := eq_append_cons_of_mem hsemi
        rw [unescapeFrom_ref [] hname] at h
        cases hcode : codeRef name with
        | none =>
          rw [hcode] at h
          cases h
        | some bytes =>
          rw [hcode] at h
          dsimp only at h
          split at h
          · exact hbehind (codeRef_head hcode) h
          · cases h
      · rw [unescapeFrom_unended [] hsemi] at h
        split at h
        · cases h
          exact hs
        · cases h
    · rw [unescapeFrom_byte [] hamp] at h
      exact hbehind (x := [c]) hs h

/-- **Strings.**  A text that is cut outside of a reference, with the entities replaced on both sides
of the cut. -/
theorem unescape_cut_iff {z : List UInt8} (hout : ¬ InsideReference a b)
    (h : unescapeEntities (strncpy (a ++ b)) = .ok (some z)) :
    (∃ x y, unescapeEntities (strncpy a) = .ok (some x) ∧
      unescapeEntities (strncpy b) = .ok (some y) ∧ z = x ++ y) ↔ (0 ∈ a → b.headD 0 = 0) := by
  rw [strncpy_append] at h
  by_cases hfree : NulFree a
  · rw [if_pos hfree] at h
    refine iff_of_true ?_ fun hmem => absurd rfl (hfree 0 hmem)
    obtain ⟨x, y, hx, hy, hz⟩ := unescapeEntities_append
      (fun hin => hout (hin.congr (mem_of_mem_strncpy (by decide)))) h
    exact ⟨x, y, by rwa [strncpy_of_nulFree hfree], hy, hz⟩
  · rw [if_neg hfree] at h
    have hmem : 0 ∈ a := by
      by_contra hno
      exact hfree fun c hc hzero => hno (hzero ▸ hc)
    obtain ⟨x, y, hx, hy, rfl⟩ := unescapeEntities_append (fun hin => by
      obtain ⟨-, -, -, -, hin⟩ := hin
      exact absurd (eq_of_mem_replicate hin) (by decide)) h
    rw [unescapeEntities_zeros] at hy
    cases hy
    constructor
    · rintro ⟨x', y', hx', hy', hsame⟩ -
      cases hx.symm.trans hx'
      obtain rfl := append_cancel_left hsame
      by_contra hne
      have hhead : (strncpy b).headD 0 ≠ 0 := by
        cases b with
        | nil => exact absurd rfl hne
        | cons c b =>
          have hcons : cstr (c :: b) = c :: cstr b :=
            takeWhile_cons_of_pos (by simpa using hne)
          rw [strncpy, hcons]
          exact hne
      refine unescapeEntities_head hy' hhead ?_
      cases b with
      | nil => rfl
      | cons c b => rfl
    · intro hb
      refine ⟨x, List.replicate b.length 0, hx, ?_, rfl⟩
      have hcopy : strncpy b = List.replicate b.length 0 := by
        cases b with
        | nil => rfl
        | cons c b =>
          obtain rfl : c = 0 := hb hmem
          rfl
      rw [hcopy]
      exact unescapeEntities_zeros _

/-! ## Numbers -/

/-- The number at the beginning of a text, without a sign. -/
def unsignedValue (base : Nat) (s : List UInt8) : Option Nat :=
  let digits := digitsOf (numberBase base s).1 (s.drop (numberBase base s).2)
  if digits = [] then none else some (numeral (numberBase base s).1 digits)

/-- The value of `strtoull` for a number, with its sign. -/
def clampValue (isNegative : Bool) : Option Nat → Nat
  | none => 0
  | some v => if v ≥ 2 ^ 64 then 2 ^ 64 - 1 else if isNegative then (2 ^ 64 - v) % 2 ^ 64 else v

theorem strtoull_value (base : Nat) (s : List UInt8) :
    (strtoull base s).1 = clampValue ((s.dropWhile isSpace).headD 0 = ch '-')
      (unsignedValue base
        (if (s.dropWhile isSpace).headD 0 = ch '-' ∨ (s.dropWhile isSpace).headD 0 = ch '+' then
          (s.dropWhile isSpace).tail else s.dropWhile isSpace)) := by
  have hdrop : s.drop (s.takeWhile isSpace).length = s.dropWhile isSpace := by
    have h := congrArg (List.drop (s.takeWhile isSpace).length)
      (takeWhile_append_dropWhile (p := isSpace) (l := s))
    rwa [drop_left, eq_comm] at h
  rw [strtoull]
  simp only [hdrop]
  generalize s.dropWhile isSpace = z
  have hsign : z.drop (if z.headD 0 = ch '-' ∨ z.headD 0 = ch '+' then 1 else 0) =
      if z.headD 0 = ch '-' ∨ z.headD 0 = ch '+' then z.tail else z := by
    split
    · rw [drop_one]
    · rfl
  rw [hsign]
  generalize (if z.headD 0 = ch '-' ∨ z.headD 0 = ch '+' then z.tail else z) = y
  rw [unsignedValue, numeral]
  split
  · rfl
  · simp only [clampValue, decide_eq_true_eq]

theorem strtoull_blanks (base : Nat) {w : List UInt8} (hw : ∀ c ∈ w, isSpace c) (s : List UInt8) :
    (strtoull base (w ++ s)).1 = (strtoull base s).1 := by
  rw [strtoull_value, strtoull_value, dropWhile_append_of_pos hw]

theorem dropWhile_space (h : isSpace (s.headD 0) = false) : s.dropWhile isSpace = s := by
  cases s with
  | nil => rfl
  | cons c s => exact dropWhile_cons_of_neg (by simpa using h)

theorem strtoull_unsigned (base : Nat) (hspace : isSpace (s.headD 0) = false)
    (hsign : ¬ (s.headD 0 = ch '-' ∨ s.headD 0 = ch '+')) :
    (strtoull base s).1 = clampValue false (unsignedValue base s) := by
  rw [strtoull_value, dropWhile_space hspace, if_neg hsign, decide_eq_false fun h => hsign (.inl h)]

theorem strtoull_signed (base : Nat) (hc : c = ch '-' ∨ c = ch '+') (s : List UInt8) :
    (strtoull base (c :: s)).1 = clampValue (c = ch '-') (unsignedValue base s) := by
  have hspace : isSpace c = false := by
    rcases hc with rfl | rfl
    · decide
    · decide
  rw [strtoull_value, dropWhile_space (by simpa using hspace), if_pos (by simpa using hc)]
  rfl

theorem unsignedValue_eq_none (h : ¬ digitValue (s.headD 0) < 10) : unsignedValue 0 s = none := by
  have hbase : numberBase 0 s = (10, 0) := by
    have hzero : s.headD 0 ≠ ch '0' := by
      intro hzero
      rw [hzero] at h
      exact h (by decide)
    rw [numberBase, if_neg (fun hx => hzero hx.2.1), if_pos rfl, if_neg hzero]
  have hdigits : digitsOf 10 s = [] := by
    cases s with
    | nil => rfl
    | cons c s => exact takeWhile_cons_of_neg (by simpa using h)
  rw [unsignedValue, hbase]
  simp only [drop_zero, hdigits, if_true]

/-- The number `s` reads the same if blanks hide its sign from `node_from_xml`, and only `strtoull`
sees it: it has no sign, or there are digits behind a `+`, or behind a `-` and the result is below
`2 ^ 63`, or `strtoull` finds no number behind a sign without digits. -/
def SignAgrees (s : List UInt8) : Prop :=
  s.headD 0 = ch '-' ∨ s.headD 0 = ch '+' →
    if digitValue (s.getD 1 0) < 10 then s.headD 0 = ch '+' ∨ (strtoull 0 s).1 < 2 ^ 63
    else (strtoull 0 s.tail).1 = 0

theorem clampValue_lt (isNegative : Bool) (o : Option Nat) : clampValue isNegative o < 2 ^ 64 := by
  cases o with
  | none => exact Nat.two_pow_pos 64
  | some v =>
    rw [clampValue]
    split
    · decide
    split
    · exact Nat.mod_lt _ (by decide)
    · omega

theorem strtoull_lt (base : Nat) (s : List UInt8) : (strtoull base s).1 < 2 ^ 64 := by
  rw [strtoull_value]
  exact clampValue_lt _ _

theorem integerData_unsigned (hsign : ¬ (s.headD 0 = ch '-' ∨ s.headD 0 = ch '+')) :
    integerData s = .scalar (.uint (UInt64.ofNat (strtoull 0 s).1))
      (if (strtoull 0 s).1 < 2 ^ 63 then 8 else 16) := by
  have hminus : ¬ s.headD 0 = ch '-' := fun h => hsign (.inl h)
  rw [integerData]
  simp only [if_neg hsign, if_neg hminus]
  split
  · rfl
  · rfl

theorem uint_eq_iff {v v' : Nat} (hv : v < 2 ^ 64) (hv' : v' < 2 ^ 64) {n n' : Nat} :
    (XData.scalar (.uint (UInt64.ofNat v)) n = .scalar (.uint (UInt64.ofNat v')) n') ↔
      v = v' ∧ n = n' := by
  constructor
  · intro h
    have hdata := XData.scalar.inj h
    have hnat := congrArg UInt64.toNat (Scalar.uint.inj hdata.1)
    rw [UInt64.toNat_ofNat', UInt64.toNat_ofNat', Nat.mod_eq_of_lt hv, Nat.mod_eq_of_lt hv'] at hnat
    exact ⟨hnat, hdata.2⟩
  · rintro ⟨rfl, rfl⟩
    rfl

/-- **Integers.**  What blanks before a number change. -/
theorem integerData_blanks {w : List UInt8} (hw : ∀ c ∈ w, isBlank c) (hne : w ≠ []) :
    integerData (w ++ s) = integerData s ↔ SignAgrees s := by
  have hblank (c : UInt8) (hc : isBlank c) : isSpace c = true ∧ ¬ (c = ch '-' ∨ c = ch '+') := by
    simp only [isBlank, decide_eq_true_eq] at hc
    rcases hc with rfl | rfl | rfl | rfl
    all_goals decide
  obtain ⟨b, w', rfl⟩ := exists_cons_of_ne_nil hne
  have hspaces : ∀ c ∈ b :: w', isSpace c := fun c hc => (hblank c (hw c hc)).1
  have hdata := integerData_unsigned (s := b :: w' ++ s) (hblank b (hw b mem_cons_self)).2
  rw [strtoull_blanks 0 hspaces] at hdata
  by_cases hsign : s.headD 0 = ch '-' ∨ s.headD 0 = ch '+'
  · obtain ⟨c, u, rfl⟩ : ∃ c u, s = c :: u := by
      cases s with
      | nil => exact absurd hsign (by decide)
      | cons c u => exact ⟨c, u, rfl⟩
    have hc : c = ch '-' ∨ c = ch '+' := hsign
    have hlt := strtoull_lt 0 u
    have hlt' := strtoull_lt 0 (c :: u)
    have hsigned := strtoull_signed 0 hc u
    have hhead : (c :: u).getD 1 0 = u.headD 0 := by
      cases u with
      | nil => rfl
      | cons d u => rfl
    rw [hdata, SignAgrees, imp_iff_right hsign, hhead, headD_cons, tail_cons, integerData]
    simp only [headD_cons, hc, if_true, tail_cons]
    by_cases hdigit : digitValue (u.headD 0) < 10
    · -- both see the digits
      have hplain := plain_of_digit hdigit
      have hunsigned := strtoull_unsigned 0 hplain.1 (fun h => h.elim hplain.2.1 hplain.2.2.1)
      rw [if_pos hdigit]
      rcases hc with rfl | rfl
      · rw [if_pos rfl, uint_eq_iff hlt' (Nat.mod_lt _ (by decide)),
          or_iff_right (by decide : ¬ ch '-' = ch '+')]
        constructor
        · rintro ⟨-, hsize⟩
          by_contra hge
          rw [if_neg hge] at hsize
          exact absurd hsize (by decide)
        · intro hsmall
          refine ⟨?_, if_pos hsmall⟩
          rw [hsigned] at hsmall ⊢
          rw [hunsigned]
          cases hvalue : unsignedValue 0 u with
          | none => rfl
          | some v =>
            rw [hvalue, clampValue] at hsmall
            rw [clampValue, clampValue]
            by_cases hlarge : v ≥ 2 ^ 64
            · rw [if_pos hlarge] at hsmall
              omega
            · rw [if_neg hlarge, if_neg hlarge]
              rfl
      · have hsame : (strtoull 0 (ch '+' :: u)).1 = (strtoull 0 u).1 := hsigned.trans hunsigned.symm
        rw [hsame, if_neg (by decide : ¬ ch '+' = ch '-')]
        refine iff_of_true ?_ (.inl rfl)
        by_cases hsmall : (strtoull 0 u).1 < 2 ^ 63
        · rw [if_pos hsmall, if_pos hsmall]
        · rw [if_neg hsmall, if_neg hsmall]
    · -- there is no number for `strtoull` behind blanks
      rw [unsignedValue_eq_none hdigit] at hsigned
      have hnone : (strtoull 0 (c :: u)).1 = 0 := hsigned
      rw [if_neg hdigit, hnone, if_pos (by decide)]
      split
      · rw [uint_eq_iff (by decide) (Nat.mod_lt _ (by decide)), and_iff_left rfl]
        omega
      · split
        · rw [uint_eq_iff (by decide) hlt, and_iff_left rfl]
          exact eq_comm
        · rw [uint_eq_iff (by decide) hlt]
          omega
  · rw [hdata, integerData_unsigned hsign]
    exact iff_of_true rfl fun h => absurd h hsign

/-! ## A comment -/

/-- There is a node or a key. -/
def Content.Parsed : Content → Prop
  | .node _ _ _ | .key _ _ => True
  | .close _ | .fail _ => False

/-- The same content, `n` bytes further on. -/
def Content.moved (n : Nat) : Content → Content
  | .node data pos err => .node data (pos + n) err
  | .key name pos => .key name (pos + n)
  | .close pos => .close (pos + n)
  | .fail pos => .fail (pos + n)

/-- When a comment between `a` and `b` changes nothing, with `pre` before them and `items` behind:
* strings: no `NUL` before the comment makes a difference for what is behind it;
* integers: the comment is not among the blanks before a number with a sign;
* data and dates: it is not in the first part, or what is before it has the same value already. -/
def Element.Transparent (conv : Conv) (pre : List (List UInt8 × Item)) (a b : List UInt8)
    (items : List (Item × List UInt8)) : Element → Prop
  | .string | .key => 0 ∈ a → b.headD 0 = 0
  | .real => True
  | .integer => pre = [] → (∀ c ∈ a, isBlank c) → isBlank (b.headD 0) →
      SignAgrees (b.dropWhile isBlank ++ itemsBytes items)
  | .data => pre = [] → base64decode (a.dropWhile isBlank) =
      base64decode (firstBytes (partsOf ((a ++ b).dropWhile isBlank) items))
  | .date => pre = [] →
      conv.toDouble (dateTime conv (a.dropWhile isBlank)
        (a.dropWhile isBlank ++ (b ++ itemsBytes items)).length - 978307200) =
      conv.toDouble (dateTime conv (firstBytes (partsOf ((a ++ b).dropWhile isBlank) items))
        ((a ++ b).dropWhile isBlank ++ itemsBytes items).length - 978307200)

/-- The parts of a text behind its blanks, with `pre` before `t`. -/
def partsAt (pre : List (List UInt8 × Item)) (t : List UInt8) (items : List (Item × List UInt8)) :
    List Part :=
  partsOf ((leadText pre t).dropWhile isBlank) (leadItems pre t items)

theorem valueContent_ok {q : Nat} {x : Except Stop XData} {r : Content}
    (h : valueContent q x = .ok r) : ∃ d, x = .ok d ∧ r = .node d q false := by
  cases x with
  | error stop => cases h
  | ok d =>
    cases h
    exact ⟨d, rfl, rfl⟩

theorem valueContent_eq_iff {q n : Nat} {d : XData} {r : Content}
    (h : valueContent q (.ok d) = .ok r) (x : Except Stop XData) :
    valueContent (q + n) x = .ok (r.moved n) ↔ x = .ok d := by
  cases h
  constructor
  · intro h
    obtain ⟨d', rfl, hsame⟩ := valueContent_ok h
    cases hsame
    rfl
  · rintro rfl
    rfl

theorem shownBytes_partsAt_nil (t : List UInt8) (items : List (Item × List UInt8)) :
    shownBytes (partsAt [] t items) = t.dropWhile isBlank ++ itemsBytes items :=
  shownBytes_partsOf _ items

theorem shownBytes_partsAt_comment (hpre : pre ≠ []) (a b c : List UInt8)
    (items : List (Item × List UInt8)) :
    shownBytes (partsAt pre a ((.comment c, b) :: items)) =
      shownBytes (partsAt pre (a ++ b) items) := by
  rw [partsAt, partsAt, partsOf_skip hpre, partsOf_skip hpre, shownBytes_append, shownBytes_append,
    shownBytes_partsOf, shownBytes_partsOf, itemsBytes, append_assoc]

theorem firstBytes_partsAt_comment (hpre : pre ≠ []) (a b c : List UInt8)
    (items : List (Item × List UInt8)) :
    firstBytes (partsAt pre a ((.comment c, b) :: items)) =
      firstBytes (partsAt pre (a ++ b) items) := by
  rw [partsAt, partsAt, partsOf_skip hpre, partsOf_skip hpre,
    firstBytes_append (beforeParts_ne_nil hpre), firstBytes_append (beforeParts_ne_nil hpre)]

theorem dropWhile_blank_append (a b : List UInt8) :
    (a ++ b).dropWhile isBlank =
      if ∀ c ∈ a, isBlank c then b.dropWhile isBlank else a.dropWhile isBlank ++ b := by
  rw [dropWhile_append]
  by_cases h : ∀ c ∈ a, isBlank c
  · rw [if_pos h, if_pos (isEmpty_iff.mpr (dropWhile_eq_nil_iff.mpr h))]
  · rw [if_neg h, if_neg fun he => h (dropWhile_eq_nil_iff.mp (isEmpty_iff.mp he))]

theorem integer_comment_iff (pre : List (List UInt8 × Item)) (a b c : List UInt8)
    (items : List (Item × List UInt8)) :
    integerData (cstr (shownBytes (partsAt pre a ((.comment c, b) :: items)))) =
        integerData (cstr (shownBytes (partsAt pre (a ++ b) items))) ↔
      (pre = [] → (∀ c ∈ a, isBlank c) → isBlank (b.headD 0) →
        SignAgrees (b.dropWhile isBlank ++ itemsBytes items)) := by
  have hcstr (x : List UInt8) : integerData (cstr x) = integerData x :=
    (Ends.same integerData_stop (.inl rfl : Ends x x)).symm
  rw [hcstr, hcstr]
  by_cases hpre : pre = []
  · rw [imp_iff_right hpre, hpre, shownBytes_partsAt_nil, shownBytes_partsAt_nil, itemsBytes,
      dropWhile_blank_append]
    by_cases ha : ∀ c ∈ a, isBlank c
    · rw [if_pos ha, imp_iff_right ha, dropWhile_eq_nil_iff.mpr ha, nil_append]
      by_cases hb : isBlank (b.headD 0)
      · rw [imp_iff_right hb]
        have hsplit : b = b.takeWhile isBlank ++ b.dropWhile isBlank :=
          takeWhile_append_dropWhile.symm
        conv_lhs => lhs; rw [hsplit, append_assoc]
        refine integerData_blanks (fun c hc => mem_takeWhile_imp hc) ?_
        cases b with
        | nil => exact absurd hb (by decide)
        | cons c b =>
          have htake : (c :: b).takeWhile isBlank = c :: b.takeWhile isBlank :=
            takeWhile_cons_of_pos hb
          rw [htake]
          exact cons_ne_nil _ _
      · refine iff_of_true ?_ fun h => absurd h hb
        have hsame : b.dropWhile isBlank = b := by
          cases b with
          | nil => rfl
          | cons c b => exact dropWhile_cons_of_neg hb
        rw [hsame]
    · rw [if_neg ha, append_assoc]
      exact iff_of_true rfl fun h => absurd h ha
  · rw [shownBytes_partsAt_comment hpre]
    exact iff_of_true rfl fun h => absurd h hpre

theorem real_comment {conv : Conv} (hconv : conv.Atof) (pre : List (List UInt8 × Item))
    (a b c : List UInt8) (items : List (Item × List UInt8)) :
    conv.atof (cstr (shownBytes (partsAt pre a ((.comment c, b) :: items)))) =
      conv.atof (cstr (shownBytes (partsAt pre (a ++ b) items))) := by
  have hcstr (x : List UInt8) : conv.atof (cstr x) = conv.atof x :=
    (Ends.same hconv.stop (.inl rfl : Ends x x)).symm
  by_cases hpre : pre = []
  · have hdrop (x y : List UInt8) : conv.atof (x.dropWhile isBlank ++ y) = conv.atof (x ++ y) := by
      conv_rhs => rw [← takeWhile_append_dropWhile (p := isBlank) (l := x), append_assoc]
      exact (hconv.blanks _ _ fun c hc => mem_takeWhile_imp hc).symm
    rw [hcstr, hcstr, hpre, shownBytes_partsAt_nil, shownBytes_partsAt_nil, itemsBytes, hdrop, hdrop,
      append_assoc]
  · rw [shownBytes_partsAt_comment hpre]

theorem data_comment_iff {c : List UInt8} {d : XData}
    (hd : blobData (firstBytes (partsAt pre (a ++ b) items)) = .ok d) :
    blobData (firstBytes (partsAt pre a ((.comment c, b) :: items))) = .ok d ↔
      (pre = [] → base64decode (a.dropWhile isBlank) =
        base64decode (firstBytes (partsOf ((a ++ b).dropWhile isBlank) items))) := by
  by_cases hpre : pre = []
  · rw [imp_iff_right hpre]
    subst hpre
    have hfirst : firstBytes (partsAt [] a ((.comment c, b) :: items)) = a.dropWhile isBlank := rfl
    have hfirst' : firstBytes (partsAt [] (a ++ b) items) =
        firstBytes (partsOf ((a ++ b).dropWhile isBlank) items) := rfl
    rw [hfirst'] at hd
    rw [hfirst]
    constructor
    · intro h
      rw [blobData] at h hd
      split at h
      · split at hd
        · cases h
          exact (Scalar.data.inj (XData.scalar.inj (Except.ok.inj hd)).1).symm
        · cases hd
      · cases h
    · intro h
      rw [blobData, h]
      exact hd
  · rw [firstBytes_partsAt_comment hpre]
    exact iff_of_true hd fun h => absurd h hpre

theorem date_comment_iff (conv : Conv) (pre : List (List UInt8 × Item)) (a b c : List UInt8)
    (items : List (Item × List UInt8)) :
    conv.toDouble (dateTime conv (firstBytes (partsAt pre a ((.comment c, b) :: items)))
        (shownBytes (partsAt pre a ((.comment c, b) :: items))).length - 978307200) =
      conv.toDouble (dateTime conv (firstBytes (partsAt pre (a ++ b) items))
        (shownBytes (partsAt pre (a ++ b) items)).length - 978307200) ↔
      Element.Transparent conv pre a b items .date := by
  by_cases hpre : pre = []
  · subst hpre
    rw [Element.Transparent, imp_iff_right rfl, shownBytes_partsAt_nil, shownBytes_partsAt_nil,
      itemsBytes]
    exact Iff.rfl
  · rw [firstBytes_partsAt_comment hpre, shownBytes_partsAt_comment hpre]
    exact iff_of_true rfl fun h => absurd h hpre

theorem string_comment_iff {c str : List UInt8}
    (hout : ¬ InsideReference a b)
    (h : copyShown true (partsOf (leadText pre (a ++ b)) (leadItems pre (a ++ b) items)) =
      .ok (some str)) :
    copyShown true (partsOf (leadText pre a) (leadItems pre a ((.comment c, b) :: items))) =
      .ok (some str) ↔ (0 ∈ a → b.headD 0 = 0) := by
  rw [partsOf_lead, copyShown_append_eq] at h ⊢
  obtain ⟨x, yz, hx, hyz, rfl⟩ := h
  obtain ⟨z, y, hz, hy, rfl⟩ := (copyShown_partsOf (a ++ b) items yz).mp hyz
  rw [← unescape_cut_iff hout hz]
  constructor
  · rintro ⟨x', yz', hx', hyz', hsame⟩
    cases hx.symm.trans hx'
    obtain rfl := append_cancel_left hsame
    obtain ⟨z1, w, hz1, hw, hzw⟩ := (copyShown_partsOf a ((.comment c, b) :: items) (z ++ y)).mp hyz'
    obtain ⟨z2, y', hz2, hy', rfl⟩ := (copyShown_partsOf b items w).mp hw
    cases hy.symm.trans hy'
    rw [← append_assoc] at hzw
    exact ⟨z1, z2, hz1, hz2, append_cancel_right hzw⟩
  · rintro ⟨z1, z2, hz1, hz2, rfl⟩
    refine ⟨x, z1 ++ z2 ++ y, hx, ?_, rfl⟩
    rw [append_assoc]
    exact (copyShown_partsOf a _ _).mpr ⟨z1, z2 ++ y, hz1,
      (copyShown_partsOf b items _).mpr ⟨z2, y, hz2, hy, rfl⟩, rfl⟩

theorem stringOf_eq_iff {wantsKey : Bool} {pos : Nat} {str : List UInt8} :
    stringOf wantsKey ps pos = .ok (stringNode wantsKey str pos) ↔
      copyShown true ps = .ok (some str) := by
  rw [stringOf]
  cases copyShown true ps with
  | error stop => simp [bind, Except.bind]
  | ok o =>
    cases o with
    | none =>
      simp only [ok_bind, stringNode]
      refine iff_of_false ?_ (fun h => by cases h)
      split
      · exact fun h => by cases h
      · exact fun h => by cases h
    | some s =>
      simp only [ok_bind, stringNode, Except.ok.injEq, Option.some.injEq]
      split
      · simp
      · constructor
        · intro h
          cases h
          rfl
        · rintro rfl
          rfl

theorem stringOf_parsed {wantsKey : Bool} {pos : Nat} {r : Content}
    (h : stringOf wantsKey ps pos = .ok r) (hr : r.Parsed) :
    ∃ str, copyShown true ps = .ok (some str) ∧ r = stringNode wantsKey str pos := by
  rw [stringOf] at h
  cases hcopy : copyShown true ps with
  | error stop =>
    rw [hcopy] at h
    cases h
  | ok o =>
    rw [hcopy] at h
    cases o with
    | none =>
      cases h
      exact hr.elim
    | some str =>
      cases h
      exact ⟨str, rfl, rfl⟩

theorem stringNode_moved (wantsKey : Bool) (str : List UInt8) (pos n : Nat) :
    (stringNode wantsKey str pos).moved n = stringNode wantsKey str (pos + n) := by
  rw [stringNode, stringNode]
  split
  · rfl
  · rfl

/-- **When comments are transparent.**  An element with the text `pre`, `a ++ b`, `items` is read; with
a comment between `a` and `b` it is read as the same node exactly if it is `Transparent` there. -/
theorem comment_transparent_iff {conv : Conv} (hconv : conv.Atof) (e : Element)
    {pre : List (List UInt8 × Item)} {a b c w s : List UInt8} {items : List (Item × List UInt8)}
    {text text' : List UInt8} {pos : Nat} {wantsKey : Bool} {r : Content}
    (hpre : BeforeOk pre) (hok : BodyOk (a ++ b) items) (hc : ¬ lit "-->" <:+: c)
    (hw : ∀ x ∈ w, isBlank x) (hout : ¬ InsideReference a b)
    (h : text.drop pos = beforeBytes pre ++ (bodyBytes (a ++ b) items ++ closing e.name w s))
    (h' : text'.drop pos = beforeBytes pre ++ (a ++ (lit "<!--" ++ c ++ lit "-->") ++
      bodyBytes b items ++ closing e.name w s))
    (hread : readContent conv text e.tag pos wantsKey = .ok r) (hparsed : r.Parsed) :
    readContent conv text' e.tag pos wantsKey = .ok (r.moved (c.length + 7)) ↔
      e.Transparent conv pre a b items := by
  have hok' : BodyOk a ((.comment c, b) :: items) := by
    refine ⟨fun x hx => hok.1 x (mem_append_left _ hx), fun p hp => ?_⟩
    rcases mem_cons.mp hp with rfl | hp
    · exact ⟨hc, fun x hx => hok.1 x (mem_append_right _ hx)⟩
    · exact hok.2 p hp
  have hbody : text.drop pos = bodyBytes (leadText pre (a ++ b)) (leadItems pre (a ++ b) items) ++
      closing e.name w s := by
    rw [h, bodyBytes_lead, append_assoc]
  have hbody' : text'.drop pos =
      bodyBytes (leadText pre a) (leadItems pre a ((.comment c, b) :: items)) ++
        closing e.name w s := by
    rw [h', bodyBytes_lead, bodyBytes, Item.bytes]
    simp only [append_assoc]
  have hlength : (bodyBytes (leadText pre a) (leadItems pre a ((.comment c, b) :: items))).length =
      (bodyBytes (leadText pre (a ++ b)) (leadItems pre (a ++ b) items)).length + (c.length + 7) := by
    have hopen : (lit "<!--").length = 4 := rfl
    have hend : (lit "-->").length = 3 := rfl
    rw [bodyBytes_lead, bodyBytes_lead, bodyBytes, Item.bytes, bodyBytes_append]
    simp only [length_append, hopen, hend]
    omega
  rw [readContent_body hconv e hw _ (bodyOk_lead hpre hok) wantsKey hbody] at hread
  rw [readContent_body hconv e hw _ (bodyOk_lead hpre hok') wantsKey hbody', hlength]
  generalize (bodyBytes (leadText pre (a ++ b)) (leadItems pre (a ++ b) items)).length = n at *
  rw [show pos + (n + (c.length + 7)) + (e.name.length + w.length + 3) =
    pos + n + (e.name.length + w.length + 3) + (c.length + 7) by omega]
  generalize pos + n + (e.name.length + w.length + 3) = q at *
  cases e with
  | string =>
    obtain ⟨str, hstr, rfl⟩ := stringOf_parsed hread hparsed
    rw [stringNode_moved]
    exact stringOf_eq_iff.trans (string_comment_iff hout hstr)
  | key =>
    obtain ⟨str, hstr, rfl⟩ := stringOf_parsed hread hparsed
    rw [stringNode_moved]
    exact stringOf_eq_iff.trans (string_comment_iff hout hstr)
  | integer =>
    refine (valueContent_eq_iff hread _).trans (Iff.trans ?_ (integer_comment_iff pre a b c items))
    rw [Except.ok.injEq]
    rfl
  | real =>
    refine (valueContent_eq_iff hread _).trans (iff_of_true ?_ trivial)
    exact congrArg (fun v => Except.ok (XData.scalar (.real v) 8))
      (real_comment hconv pre a b c items)
  | date =>
    refine (valueContent_eq_iff hread _).trans
      (Iff.trans ?_ (date_comment_iff conv pre a b c items))
    simp only [Except.ok.injEq, XData.scalar.injEq, Scalar.date.injEq, and_true]
    rfl
  | data =>
    obtain ⟨d, hd, -⟩ := valueContent_ok hread
    rw [Element.content, hd] at hread
    exact (valueContent_eq_iff hread _).trans (data_comment_iff hd)

/-- A string with a comment in it. -/
theorem comment_transparent_string :
    readContent ⟨fun _ => 0, fun _ => 0, fun _ => 0⟩ (lit "a<!--c-->b</string>") Element.string.tag 0
        false = .ok (Content.moved 8 (.node (.scalar (.string (lit "ab")) 2) 11 false)) ↔
      Element.string.Transparent ⟨fun _ => 0, fun _ => 0, fun _ => 0⟩ [] (lit "a") (lit "b") [] :=
  comment_transparent_iff ⟨rfl, fun _ _ _ => rfl, fun _ _ _ _ => rfl⟩ .string
    (c := lit "c") (w := []) (s := [])
    (fun _ h => by cases h) ⟨by decide, fun _ h => by cases h⟩ (by decide) (by decide)
    (by
      rintro ⟨x, y, -, -, h⟩
      exact absurd h (by decide))
    (show (lit "ab</string>").drop 0 = _ by rfl) (by rfl) (by rfl) trivial

/-- `<data>` ends at the comment, `<integer>` loses the sign behind it, and a `<date>` is what is
before it. -/
theorem comments_not_transparent :
    (∀ conv, readContent conv (lit "QUJDREVG</data>") Element.data.tag 0 false =
      .ok (.node (.scalar (.data (lit "ABCDEF")) 6) 15 false)) ∧
    (∀ conv, readContent conv (lit "QUJD<!--c-->REVG</data>") Element.data.tag 0 false =
        .ok (.node (.scalar (.data (lit "ABC")) 3) 23 false) ∧
      readContent conv (lit "QUJD<!--c-->REVG</data>") Element.data.tag 0 false ≠
        .ok (Content.moved 8 (.node (.scalar (.data (lit "ABCDEF")) 6) 15 false))) ∧
    (∀ conv, readContent conv (lit " -5</integer>") Element.integer.tag 0 false =
      .ok (.node (.scalar (.uint 18446744073709551611) 8) 13 false)) ∧
    (∀ conv, readContent conv (lit "<!--c--> -5</integer>") Element.integer.tag 0 false =
      .ok (.node (.scalar (.uint 18446744073709551611) 16) 21 false)) ∧
    (∀ conv : Conv, readContent conv (lit "2001-01-01T12:00:00Z</date>") Element.date.tag 0 false =
      .ok (.node (.scalar (.date (conv.toDouble
        (conv.timegm (lit "2001-01-01T12:00:00Z") - 978307200))) 8) 27 false)) ∧
    ∀ conv : Conv, readContent conv (lit "2001-01-01<!--c-->T12:00:00Z</date>") Element.date.tag 0
      false = .ok (.node (.scalar (.date (conv.toDouble
        (conv.timegm (lit "2001-01-01") - 978307200))) 8) 35 false) :=
  ⟨fun _ => by rfl, fun _ => ⟨by rfl, nofun⟩, fun _ => by rfl, fun _ => by rfl, fun _ => by rfl,
    fun _ => by rfl⟩

end IDeviceStack.Libplist.Xplist
