/-
# `Libplist.Xplist.Parse` — the reader of `xplist.c`

`node_from_xml` is one loop over the tags of the text.  Its state is `ctx` and its
local variables; a turn of the loop is `parseStep`, with one function for each kind of
tag, and what a turn comes to is `Next`.

The nodes that are part of the result, or open, are kept in a list in the order in
which they were made, and a pointer to a node is its place in there.  The nodes that
are freed again without having been put anywhere do not show up.  The children of a
container are a sequence, for a dictionary with the keys beside them: that is what
`Libplist.Array` and `Libplist.DictRun` show `plist_array_append_item` and
`plist_dict_set_item` to work on, and `setEntry` is what the latter does to it.

`*plist` is `NULL` when `plist_from_xml` is called, and memory is not exhausted.  Reals
and dates are converted by functions that are parameters here.
-/
import IDeviceStack.Libplist.DictRun
import IDeviceStack.Libplist.Xplist.Content

namespace IDeviceStack.Libplist.Xplist

/-! ## State -/

/-- The conversions: `atof`, `parse_date` with `timegm64`, and from an integer to a `double`. -/
structure Conv where
  atof : List UInt8 → UInt64
  timegm : List UInt8 → Int
  toDouble : Int → UInt64

/-- The data of a node and, for a container, its children. -/
inductive XData where
  | scalar (value : Scalar) (length : Nat)
  | array (children : List Nat)
  | dict (entries : List (List UInt8 × Nat))

structure XNode where
  data : XData
  parent : Option Nat

/-- `node_path_item.type`. -/
inductive PathItem where
  | plist
  | dict
  | array
  deriving DecidableEq, Repr

def PathItem.type : PathItem → List UInt8
  | .plist => lit "plist"
  | .dict => lit "dict"
  | .array => lit "array"

/-- `ctx`, `*plist` and the variables of `node_from_xml`. -/
structure State where
  pos : Nat
  err : Bool
  nodes : List XNode
  plist : Option Nat
  parent : Option Nat
  keyname : Option (List UInt8)
  hasContent : Bool
  nodePath : List PathItem

/-- What a turn of the loop comes to: another one, `break`, or `goto err_out`. -/
inductive Next where
  | more (s : State)
  | leave (s : State)
  | out (s : State)

/-- `ctx->err++; goto err_out`. -/
def State.fail (s : State) (pos : Nat) : Next := .out { s with pos := pos, err := true }

/-! ## What is not a tag -/

/-- `<? ... ?>`, from the first `?`. -/
def skipInstruction (text : List UInt8) (pos : Nat) : Except Stop (Option Nat) := do
  match ← findEnd text (lit "?>") true pos with
  | none => .ok none
  | some e => .ok (some (e + 2))

/-- The loop through a `DOCTYPE`: where it ends, or the `[` of an embedded DTD. -/
def doctypeLoop (text : List UInt8) : Nat → Nat → Except Stop (Option (Nat × Bool))
  | 0, _ => .error .fuel
  | fuel + 1, pos =>
    if pos < text.length then do
      let pos ← findNext text [32, 9, 13, 10, ch '[', ch '>'] true pos
      if pos ≥ text.length then .ok none
      else do
        let c ← byteAt text pos
        if c = ch '[' then .ok (some (pos, true))
        else if c = ch '>' then .ok (some (pos + 1, false))
        else do
          let pos ← parseSkipWs text pos
          doctypeLoop text fuel pos
    else
      .ok (some (pos, false))

/-- A `DOCTYPE`, from behind the word. -/
def skipDoctype (text : List UInt8) (pos : Nat) : Except Stop (Option Nat) := do
  match ← doctypeLoop text (text.length + 1) pos with
  | none => .ok none
  | some (pos, false) => .ok (some pos)
  | some (pos, true) => do
      match ← findEnd text (lit "]>") true pos with
      | none => .ok none
      | some e => .ok (some (e + 2))

/-- `ctx->end - ctx->pos > n` and the text there begins with `str`, which has `n` bytes. -/
def startsWith (text : List UInt8) (pos : Nat) (str : List UInt8) : Except Stop Bool :=
  if pos + str.length < text.length then strncmp text pos str str.length else .ok false

/-- A comment or a `DOCTYPE`, from the `!` on. -/
def skipSpecial (text : List UInt8) (pos : Nat) : Except Stop (Option Nat) := do
  if ← startsWith text pos (lit "!--") then do
    match ← findEnd text (lit "-->") false (pos + 3) with
    | none => .ok none
    | some e => .ok (some (e + 3))
  else if ← startsWith text pos (lit "!DOCTYPE") then skipDoctype text (pos + 8)
  else do
    let _ ← findNext text nameEnd true pos
    .ok none

/-! ## Tags -/

/-- A tag: its name, `taglen` and `is_empty`. -/
structure Tag where
  name : List UInt8
  len : Nat
  isEmpty : Bool

/-- What ends the name of a tag. -/
def tagEnd : List UInt8 := [32, 13, 10, 9, ch '<', ch '>']

/-- `strncpy(tag, p, taglen)`, with `taglen` the `int` that `n` is kept in.  `taglen + 1` has to be
one, or `tag` is `NULL`.  A negative one is a length beyond all bounds: the copy goes on to the next
`NUL` and behind the end of the text. -/
def copyName (text : List UInt8) (p n : Nat) : Except Stop (List UInt8) := do
  if n + 1 < 2 ^ 31 then do
    let s ← bytesAt text p n
    .ok (strncpy s)
  else if n + 1 = 2 ^ 31 ∨ 0 ∈ text.drop p then .error .overflow
  else .error (.fault text.length)

/-- From the end of the name to the end of the tag. -/
def findTagEnd (text : List UInt8) (q : Nat) : Except Stop Nat := do
  let c ← byteAt text q
  if c ≠ ch '>' then findNext text [ch '<', ch '>'] true q else .ok q

/-- The end of a tag, whose name begins at `p`: at `e` there is the `>`. -/
def finishTag (text name : List UInt8) (p q e : Nat) : Except Stop (Option (Tag × Nat)) := do
  let c ← byteAt text (e - 1)
  if c = ch '/' then
    if e - p - 1 < 2 ^ 31 then .ok (some (⟨cstr (name.take (e - p - 1)), q - p, true⟩, e + 1))
    else .error .overflow
  else .ok (some (⟨cstr name, q - p, false⟩, e + 1))

/-- A tag, from behind its `<`. -/
def readTag (text : List UInt8) (p : Nat) : Except Stop (Option (Tag × Nat)) := do
  let q ← findNext text tagEnd false p
  if q ≥ text.length then .ok none
  else do
    let name ← copyName text p (q - p)
    let e ← findTagEnd text q
    if e ≥ text.length then .ok none
    else do
      let c ← byteAt text e
      if c ≠ ch '>' then .ok none else finishTag text name p q e

/-- `<plist>`. -/
def openPlist (s : State) (tag : Tag) (pos : Nat) : Next :=
  let s := { s with pos := pos, hasContent := false }
  if s.nodePath = [] ∧ s.plist.isSome then .leave s
  else if tag.isEmpty then s.fail pos
  else .more { s with nodePath := .plist :: s.nodePath }

/-- `</plist>`. -/
def closePlist (s : State) (pos : Nat) : Next :=
  if !s.hasContent then s.fail pos
  else
    match s.nodePath with
    | .plist :: path => .more { s with pos := pos, nodePath := path }
    | _ => s.fail pos

/-! ## Nodes -/

/-- What a tag stands for: a new node, the key of the next one, or the end of a container.  The
`err` of a node is `ctx->err` after `get_text_parts`, where its result is not looked at. -/
inductive Content where
  | node (data : XData) (pos : Nat) (err : Bool)
  | key (name : List UInt8) (pos : Nat)
  | close (pos : Nat)
  | fail (pos : Nat)

/-- What the tags with a text have in common: `emptyTag` is the node for `<tag/>`, `noText` the one
without text, and `full` makes it from the first part and the content. -/
def textContent (text : List UInt8) (tag : Tag) (pos : Nat) (emptyTag noText : XData)
    (full : TextPart → List UInt8 × Nat → Except Stop XData) : Except Stop Content := do
  if tag.isEmpty then .ok (.node emptyTag pos false)
  else do
    match ← getTextParts text tag.name tag.len true pos with
    | (none, pos) => .ok (.fail pos)
    | (some [], pos) => .ok (.node noText pos false)
    | (some (tp :: rest), pos) => do
        match ← textPartsGetContent text tp rest with
        | none => .ok (.fail pos)
        | some content => do
            let data ← full tp content
            .ok (.node data pos false)

/-- The value of `<integer>`. -/
def integerData (s : List UInt8) : XData :=
  let isNegative := s.headD 0 = ch '-'
  let s := if s.headD 0 = ch '-' ∨ s.headD 0 = ch '+' then s.tail else s
  let intval := (strtoull 0 s).1
  if isNegative then .scalar (.uint (UInt64.ofNat ((2 ^ 64 - intval) % 2 ^ 64))) 8
  else if intval < 2 ^ 63 then .scalar (.uint (UInt64.ofNat intval)) 8
  else .scalar (.uint (UInt64.ofNat intval)) 16

/-- The value of `<data>`; `base64decode` counts the bytes in an `int`. -/
def dataData (tp : TextPart) (s : List UInt8) : Except Stop XData :=
  let buff := if tp.length > 0 then base64decode (s.take tp.length) else []
  if buff.length < 2 ^ 31 then .ok (.scalar (.data buff) buff.length) else .error .overflow

/-- The value of `<date>`. -/
def dateData (conv : Conv) (tp : TextPart) (content : List UInt8 × Nat) : XData :=
  let timev :=
    if 11 ≤ content.2 ∧ content.2 < 32 then
      conv.timegm (cstr ((content.1.take content.2).take tp.length))
    else 0
  .scalar (.date (conv.toDouble (timev - 978307200))) 8

/-- `<true>` and `<false>`. -/
def booleanContent (text : List UInt8) (tag : Tag) (pos : Nat) (boolval : UInt8) :
    Except Stop Content := do
  if tag.isEmpty then .ok (.node (.scalar (.boolean boolval) 1) pos false)
  else do
    let (parts, pos) ← getTextParts text tag.name tag.len true pos
    .ok (.node (.scalar (.boolean boolval) 1) pos parts.isNone)

/-- `<string>` and `<key>`. -/
def stringContent (text : List UInt8) (tag : Tag) (pos : Nat) (wantsKey : Bool) :
    Except Stop Content := do
  if tag.isEmpty then .ok (.node (.scalar (.string []) 0) pos false)
  else do
    match ← getTextParts text tag.name tag.len false pos with
    | (none, pos) => .ok (.fail pos)
    | (some parts, pos) => do
        match ← copyParts text true parts with
        | none => .ok (.fail pos)
        | some str =>
          if tag.name = lit "key" ∧ wantsKey then .ok (.key str pos)
          else .ok (.node (.scalar (.string str) str.length) pos false)

/-- The types of nodes, by their tags. -/
def readContent (conv : Conv) (text : List UInt8) (tag : Tag) (pos : Nat) (wantsKey : Bool) :
    Except Stop Content := do
  if tag.name = lit "dict" then .ok (.node (.dict []) pos false)
  else if tag.name = lit "array" then .ok (.node (.array []) pos false)
  else if tag.name = lit "integer" then
    textContent text tag pos (.scalar (.uint 0) 8) (.scalar (.uint 0) 8)
      fun _ content => .ok (integerData content.1)
  else if tag.name = lit "real" then
    textContent text tag pos (.scalar (.real 0) 8) (.scalar (.real 0) 8)
      fun _ content => .ok (.scalar (.real (conv.atof content.1)) 8)
  else if tag.name = lit "true" then booleanContent text tag pos 1
  else if tag.name = lit "false" then booleanContent text tag pos 0
  else if tag.name = lit "string" ∨ tag.name = lit "key" then stringContent text tag pos wantsKey
  else if tag.name = lit "data" then
    textContent text tag pos (.scalar (.data []) 0) (.scalar (.data []) 0)
      fun tp content => dataData tp content.1
  else if tag.name = lit "date" then
    textContent text tag pos (.scalar (.date 0) 8)
      (.scalar (.date (conv.toDouble (0 - 978307200))) 8)
      fun tp content => .ok (dateData conv tp content)
  else if tag.name.headD 0 = ch '/' then .ok (.close pos)
  else .ok (.fail text.length)

/-- The path item of a container. -/
def XData.pathItem : XData → Option PathItem
  | .scalar _ _ => none
  | .array _ => some .array
  | .dict _ => some .dict

/-- `plist_get_node_type(parent) == PLIST_DICT`. -/
def State.inDict (s : State) : Bool :=
  match s.parent.bind fun p => s.nodes[p]? with
  | some ⟨.dict _, _⟩ => true
  | _ => false

/-- Put a new node under `p`: the nodes, or `none` if `p` does not take it. -/
def attach (nodes : List XNode) (p : Nat) (keyname : Option (List UInt8)) (data : XData) :
    Except Stop (Option (List XNode)) :=
  match nodes[p]? with
  | none => .error .null
  | some ⟨.dict entries, up⟩ =>
    match keyname with
    | none => .ok none
    | some key =>
      .ok (some (nodes.set p ⟨.dict (setEntry entries (cstr key) nodes.length), up⟩ ++
        [⟨data, some p⟩]))
  | some ⟨.array children, up⟩ =>
    .ok (some (nodes.set p ⟨.array (children ++ [nodes.length]), up⟩ ++ [⟨data, some p⟩]))
  | some ⟨.scalar _ _, _⟩ => .ok none

/-- A new node is in its place: a container that is not empty is open now. -/
def State.enter (s : State) (data : XData) (isEmpty : Bool) (id : Nat) : State :=
  match data.pathItem with
  | some item =>
    if isEmpty then { s with keyname := none }
    else { s with keyname := none, nodePath := item :: s.nodePath, parent := some id }
  | none => { s with keyname := none }

/-- What happens to a new node. -/
def placeNode (s : State) (data : XData) (isEmpty : Bool) : Except Stop Next :=
  let id := s.nodes.length
  match s.plist, s.parent with
  | none, _ =>
    let s := { s with nodes := s.nodes ++ [⟨data, none⟩], plist := some id }
    if data.pathItem.isNone then .ok (.out s)
    else .ok (.more (({ s with parent := some id } : State).enter data isEmpty id))
  | some _, some p => do
      match ← attach s.nodes p s.keyname data with
      | none => .ok (s.fail s.pos)
      | some nodes => .ok (.more (({ s with nodes := nodes } : State).enter data isEmpty id))
  | some _, none =>
    .ok (.more (({ s with nodes := s.nodes ++ [⟨data, none⟩] } : State).enter data isEmpty id))

/-- A closing tag. -/
def closeNode (s : State) (name : List UInt8) : Except Stop Next :=
  match s.nodePath with
  | [] => .ok (s.fail s.pos)
  | item :: path =>
    if item.type ≠ name then .ok (s.fail s.pos)
    else
      match s.parent.bind fun p => s.nodes[p]? with
      | none => .error .null
      | some node =>
        let s := { s with nodePath := path, parent := node.parent, keyname := none }
        if node.parent.isNone then .ok (.out s) else .ok (.more s)

/-! ## The loop -/

/-- A tag that is none of `<plist>` and `</plist>`. -/
def nodeTag (conv : Conv) (text : List UInt8) (s : State) (tag : Tag) (pos : Nat) :
    Except Stop Next := do
  let s := { s with hasContent := true }
  match ← readContent conv text tag pos (s.keyname.isNone && s.inDict) with
  | .fail pos => .ok (s.fail pos)
  | .key name pos => .ok (.more { s with pos := pos, keyname := some name })
  | .close pos => closeNode { s with pos := pos } tag.name.tail
  | .node data pos err => placeNode { s with pos := pos, err := err } data tag.isEmpty

/-- A tag, from behind its `<`. -/
def parseTag (conv : Conv) (text : List UInt8) (s : State) (pos : Nat) : Except Stop Next := do
  match ← readTag text pos with
  | none => .ok (s.fail pos)
  | some (tag, pos) =>
    if tag.name = lit "plist" then .ok (openPlist s tag pos)
    else if tag.name = lit "/plist" then .ok (closePlist s pos)
    else nodeTag conv text s tag pos

/-- `ctx->pos` is moved on, or there is an error. -/
def State.skip (s : State) : Option Nat → Next
  | none => s.fail s.pos
  | some pos => .more { s with pos := pos }

/-- One turn of the loop of `node_from_xml`. -/
def parseStep (conv : Conv) (text : List UInt8) (s : State) : Except Stop Next := do
  let pos ← parseSkipWs text s.pos
  if pos ≥ text.length then .ok (.leave { s with pos := pos })
  else do
    let c ← byteAt text pos
    if c ≠ ch '<' then do
      let pos ← findNext text [32, 9, 13, 10] false pos
      .ok (s.fail pos)
    else if pos + 1 ≥ text.length then .ok (s.fail (pos + 1))
    else do
      let c ← byteAt text (pos + 1)
      if c = ch '?' then do
        let next ← skipInstruction text (pos + 1)
        .ok (s.skip next)
      else if c = ch '!' then do
        let next ← skipSpecial text (pos + 1)
        .ok (s.skip next)
      else parseTag conv text s (pos + 1)

/-- The test behind the loop: is something still open? -/
def State.finish (s : State) : State := if s.nodePath = [] then s else { s with err := true }

/-- The loop of `node_from_xml`. -/
def parseLoop (conv : Conv) (text : List UInt8) : Nat → State → Except Stop State
  | 0, _ => .error .fuel
  | fuel + 1, s =>
    if s.pos < text.length ∧ s.err = false then do
      match ← parseStep conv text s with
      | .more s => parseLoop conv text fuel s
      | .leave s => .ok s.finish
      | .out s => .ok s
    else
      .ok s.finish

def State.init : State := ⟨0, false, [], none, none, none, false, []⟩

/-- `node_from_xml`: the nodes, `*plist`, and whether `ctx->err` is set. -/
def nodeFromXml (conv : Conv) (text : List UInt8) (fuel : Nat) :
    Except Stop (List XNode × Option Nat × Bool) := do
  let s ← parseLoop conv text fuel .init
  .ok (s.nodes, if s.err then none else s.plist, s.err)

/-- `plist_from_xml`, on the first `length` bytes of a buffer. -/
def plistFromXml (conv : Conv) (plistXml : List UInt8) (length fuel : Nat) :
    Except Stop (List XNode × Option Nat) := do
  if length = 0 then .ok ([], none)
  else do
    let (nodes, plist, _) ← nodeFromXml conv (plistXml.take length) fuel
    .ok (nodes, plist)

end IDeviceStack.Libplist.Xplist
