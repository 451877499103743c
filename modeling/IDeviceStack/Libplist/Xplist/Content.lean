/-
# `Libplist.Xplist.Content` — the text between two tags

`get_text_parts` collects what stands between an opening tag and its closing tag:
plain text and `CDATA` blocks, with comments between them.
`text_parts_get_content` puts the parts together and `unescape_entities` replaces
the entities in plain text.

A buffer that was copied to is the list of the bytes before its terminator.  The
conversions of the C library (`strtoull`) see the text from where it begins, up to a
byte that is not part of the number.
-/
import IDeviceStack.Libplist.Base64
import IDeviceStack.Libplist.Xplist.Scan

namespace IDeviceStack.Libplist.Xplist

/-! ## Parts -/

/-- `text_part_t`. -/
structure TextPart where
  begin : Nat
  length : Nat
  isCdata : Bool
  deriving DecidableEq, Repr

/-- The blanks that end a name, and the end of the tag. -/
def nameEnd : List UInt8 := [32, 13, 10, 9, ch '>']

/-- What a turn of the loop of `get_text_parts` comes to.  At the `/` of a closing tag there are the
parts before, and where the last one begins and ends. -/
inductive PartStep where
  | more (parts : List TextPart) (pos : Nat)
  | close (parts : List TextPart) (p q pos : Nat)
  | fail (pos : Nat)

/-- `last = text_part_append(...)`, unless there is nothing between `p` and `q`. -/
def addText (parts : List TextPart) (p q : Nat) : List TextPart :=
  if q - p > 0 then parts ++ [⟨p, q - p, false⟩] else parts

/-- `find_next`, for the name of a tag that does not belong here. -/
def badTag (text : List UInt8) (pos : Nat) : Except Stop PartStep := do
  let pos ← findNext text nameEnd true pos
  .ok (.fail pos)

/-- A `CDATA` block; `pos` is behind `<![`. -/
def textCdata (text : List UInt8) (parts : List TextPart) (p q pos : Nat) :
    Except Stop PartStep := do
  if pos + 8 ≥ text.length then .ok (.fail pos)
  else if ← strncmp text pos (lit "CDATA[") 6 then do
    match ← findEnd text (lit "]]>") false (pos + 6) with
    | none => .ok (.fail pos)
    | some e => .ok (.more (addText parts p q ++ [⟨pos + 6, e - (pos + 6), true⟩]) (e + 3))
  else badTag text pos

/-- A comment or a `CDATA` block; `pos` is behind `<!`. -/
def textSpecial (text : List UInt8) (parts : List TextPart) (p q pos : Nat) :
    Except Stop PartStep := do
  if pos + 1 ≥ text.length then .ok (.fail pos)
  else do
    let c ← byteAt text pos
    let d ← byteAt text (pos + 1)
    if c = ch '-' ∧ d = ch '-' then do
      match ← findEnd text (lit "-->") false (pos + 2) with
      | none => .ok (.fail pos)
      | some e => .ok (.more (parts ++ [⟨p, q - p, false⟩]) (e + 3))
    else if c = ch '[' then textCdata text parts p q (pos + 1)
    else badTag text pos

/-- One turn of the loop of `get_text_parts`. -/
def textPartStep (text : List UInt8) (parts : List TextPart) (p : Nat) : Except Stop PartStep := do
  let q ← findChar text (ch '<') false p
  if q ≥ text.length then .ok (.fail q)
  else do
    let c ← byteAt text q
    if c ≠ ch '<' then .ok (.fail q)
    else if q + 1 ≥ text.length then .ok (.fail (q + 1))
    else do
      let c ← byteAt text (q + 1)
      if c = ch '!' then textSpecial text parts p q (q + 2)
      else if c = ch '/' then .ok (.close parts p q (q + 1))
      else badTag text (q + 1)

/-- The end of `get_text_parts`: the closing tag, from behind its `/`. -/
def closingTag (text tag : List UInt8) (tagLen : Nat) (parts : List TextPart) (p q pos : Nat) :
    Except Stop (Option (List TextPart) × Nat) := do
  if pos + tagLen ≥ text.length then .ok (none, pos)
  else if ← strncmp text pos tag tagLen then do
    let pos ← parseSkipWs text (pos + tagLen)
    if pos ≥ text.length then .ok (none, pos)
    else do
      let c ← byteAt text pos
      if c ≠ ch '>' then .ok (none, pos) else .ok (some (addText parts p q), pos + 1)
  else .ok (none, pos)

/-- The loop of `get_text_parts`, and what comes after it. -/
def textPartsLoop (text tag : List UInt8) (tagLen : Nat) :
    Nat → List TextPart → Nat → Except Stop (Option (List TextPart) × Nat)
  | 0, _, _ => .error .fuel
  | fuel + 1, parts, pos => do
      match ← textPartStep text parts pos with
      | .more parts pos => textPartsLoop text tag tagLen fuel parts pos
      | .close parts p q pos => closingTag text tag tagLen parts p q (pos + 1)
      | .fail pos => .ok (none, pos)

/-- `get_text_parts`, for a `tag` of `tagLen` bytes: the parts, `none` with `ctx->err` set, and
`ctx->pos`. -/
def getTextParts (text tag : List UInt8) (tagLen : Nat) (skipWs : Bool) (pos : Nat) :
    Except Stop (Option (List TextPart) × Nat) := do
  let pos ← if skipWs then parseSkipWs text pos else .ok pos
  textPartsLoop text tag tagLen (text.length + 1) [] pos

/-! ## Numbers -/

def isSpace (c : UInt8) : Bool := c = 32 ∨ 9 ≤ c ∧ c ≤ 13

/-- The value of a digit in bases up to 36. -/
def digitValue (c : UInt8) : Nat :=
  let n := c.toNat
  if 48 ≤ n ∧ n ≤ 57 then n - 48
  else if 97 ≤ n ∧ n ≤ 122 then n - 97 + 10
  else if 65 ≤ n ∧ n ≤ 90 then n - 65 + 10
  else 36

/-- The digits of a number in `base`. -/
def digitsOf (base : Nat) (s : List UInt8) : List UInt8 := s.takeWhile (digitValue · < base)

/-- The base that a number is in, and how many characters its prefix has. -/
def numberBase (base : Nat) (s : List UInt8) : Nat × Nat :=
  if (base = 0 ∨ base = 16) ∧ s.headD 0 = ch '0' ∧ (s.getD 1 0 = ch 'x' ∨ s.getD 1 0 = ch 'X') ∧
      digitValue (s.getD 2 0) < 16 then (16, 2)
  else if base = 0 then (if s.headD 0 = ch '0' then 8 else 10, 0)
  else (base, 0)

/-- `strtoull`: the value, and how many characters were used. -/
def strtoull (base : Nat) (s : List UInt8) : Nat × Nat :=
  let blanks := (s.takeWhile isSpace).length
  let s := s.drop blanks
  let sign := if s.headD 0 = ch '-' ∨ s.headD 0 = ch '+' then 1 else 0
  let negative := s.headD 0 = ch '-'
  let s := s.drop sign
  let (base, pre) := numberBase base s
  let digits := digitsOf base (s.drop pre)
  if digits = [] then (0, 0)
  else
    let v := digits.foldl (fun v c => v * base + digitValue c) 0
    (if v ≥ 2 ^ 64 then 2 ^ 64 - 1 else if negative then (2 ^ 64 - v) % 2 ^ 64 else v,
      blanks + sign + pre + digits.length)

/-! ## Entities -/

/-- The bytes of a character, as `unescape_entities` writes them. -/
def utf8Bytes (val : Nat) : List UInt8 :=
  if val ≥ 0x10000 then
    [UInt8.ofNat (0xF0 + (val >>> 18 &&& 0x7)), UInt8.ofNat (0x80 + (val >>> 12 &&& 0x3F)),
      UInt8.ofNat (0x80 + (val >>> 6 &&& 0x3F)), UInt8.ofNat (0x80 + (val &&& 0x3F))]
  else if val ≥ 0x800 then
    [UInt8.ofNat (0xE0 + (val >>> 12 &&& 0xF)), UInt8.ofNat (0x80 + (val >>> 6 &&& 0x3F)),
      UInt8.ofNat (0x80 + (val &&& 0x3F))]
  else if val ≥ 0x80 then
    [UInt8.ofNat (0xC0 + (val >>> 6 &&& 0x1F)), UInt8.ofNat (0x80 + (val &&& 0x3F))]
  else
    [UInt8.ofNat (val &&& 0x7F)]

/-- What stands for the entity whose name begins `s` and has `entlen` bytes; `none` for `-1`. -/
def entityBytes (s : List UInt8) (entlen : Nat) : Option (List UInt8) :=
  if lit "amp" <+: s then some [ch '&']
  else if lit "apos" <+: s then some [39]
  else if lit "quot" <+: s then some [quote]
  else if lit "lt" <+: s then some [ch '<']
  else if lit "gt" <+: s then some [ch '>']
  else if s.headD 0 = ch '#' then
    if entlen > 8 then none
    else
      let hex := s.getD 1 0 = ch 'x' ∨ s.getD 1 0 = ch 'X'
      if entlen < (if hex then 3 else 2) then none
      else
        let pre := if hex then 2 else 1
        let (val, used) := strtoull (if hex then 16 else 10) (s.drop pre)
        -- with nothing used, `ep` is where the search began
        if val = 0 ∨ val > 0x10FFFF ∨ pre + used ≠ entlen then none else some (utf8Bytes val)
  else none

/-- The loop of `unescape_entities`: `str[0..i)` is `done` and the rest of the string is `s`.  The
last byte is not looked at. -/
def unescapeLoop : Nat → List UInt8 → List UInt8 → Except Stop (Option (List UInt8))
  | 0, _, _ => .error .fuel
  | _ + 1, done, [] => .ok (some done)
  | _ + 1, done, [c] => .ok (some (done ++ [c]))
  | fuel + 1, done, c :: d :: s =>
    if c = ch '&' then
      let entlen := ((d :: s).takeWhile (· ≠ ch ';')).length
      if entlen ≥ (d :: s).length then .ok none
      else if entlen ≥ 1 then
        match entityBytes (d :: s) entlen with
        | none => .ok none
        | some bytes =>
          -- `entlen + 2 - bytelen` is an `int`
          if entlen + 2 < 2 ^ 31 then
            unescapeLoop fuel (done ++ bytes) ((d :: s).drop (entlen + 1))
          else .error .overflow
      else .ok none
    else unescapeLoop fuel (done ++ [c]) (d :: s)

def unescapeEntities (s : List UInt8) : Except Stop (Option (List UInt8)) :=
  unescapeLoop (s.length + 1) [] s

/-! ## Content -/

/-- `len` bytes from `begin` on. -/
def bytesAt (text : List UInt8) (begin len : Nat) : Except Stop (List UInt8) :=
  if begin + len ≤ text.length then .ok ((text.drop begin).take len)
  else .error (.fault text.length)

/-- `strncpy`: bytes after a `NUL` are `NUL`s. -/
def strncpy (s : List UInt8) : List UInt8 :=
  cstr s ++ List.replicate (s.length - (cstr s).length) 0

/-- The copy of one part. -/
def copyPart (text : List UInt8) (unescEntities : Bool) (tp : TextPart) :
    Except Stop (Option (List UInt8)) := do
  let s ← bytesAt text tp.begin tp.length
  if !tp.isCdata && unescEntities then unescapeEntities (strncpy s) else .ok (some (strncpy s))

/-- The copy that `text_parts_get_content` makes of all parts. -/
def copyParts (text : List UInt8) (unescEntities : Bool) :
    List TextPart → Except Stop (Option (List UInt8))
  | [] => .ok (some [])
  | tp :: parts => do
      match ← copyPart text unescEntities tp with
      | none => .ok none
      | some s => do
          match ← copyParts text unescEntities parts with
          | none => .ok none
          | some rest => .ok (some (s ++ rest))

/-- `text_parts_get_content` where it may return a pointer into the text (`requires_free`): the
bytes from there on, and the length.  Who reads them looks at the byte behind the content at most.
There is at least one part. -/
def textPartsGetContent (text : List UInt8) (tp : TextPart) (rest : List TextPart) :
    Except Stop (Option (List UInt8 × Nat)) := do
  if rest = [] then do
    let _ ← byteAt text (tp.begin + tp.length)
    .ok (some (text.drop tp.begin, tp.length))
  else do
    match ← copyParts text false (tp :: rest) with
    | none => .ok none
    | some s => .ok (some (s, s.length))

end IDeviceStack.Libplist.Xplist
