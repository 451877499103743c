/-
# `Libplist.Xplist.Print` — the writer of `xplist.c`

`node_to_xml` and `plist_to_xml`, with the pieces of text they put together.

The output buffer only ever grows at its end, so a function is what it appends.  The
texts of reals and dates come from functions that are parameters here.  `off_t` has 64
bits, or the text is shorter than `LONG_MAX`; `length` of a string is the number of its bytes, as for every node that the
library makes.
-/
import IDeviceStack.Libplist.Xplist.Content
import Mathlib.Data.Nat.Digits.Defs

namespace IDeviceStack.Libplist.Xplist

/-- The conversions: `dtostr`, and `gmtime64_r` with `strftime`, which may fail. -/
structure PrintConv where
  dtostr : UInt64 → List UInt8
  strftime : UInt64 → Option (List UInt8)

/-- `%llu`. -/
def decimal (n : Nat) : List UInt8 :=
  if n = 0 then [ch '0'] else (Nat.digits 10 n).reverse.map fun d => UInt8.ofNat (48 + d)

/-- The tabs before a tag. -/
def tabs (n : Nat) : List UInt8 := List.replicate n 9

/-- How a character is written. -/
def escapeChar (c : UInt8) : List UInt8 :=
  if c = ch '<' then lit "&lt;"
  else if c = ch '>' then lit "&gt;"
  else if c = ch '&' then lit "&amp;"
  else [c]

/-- The contents of a string. -/
def escape (s : List UInt8) : List UInt8 := s.flatMap escapeChar

/-- `indent`, and with it `maxread`. -/
def indentOf (depth : Nat) : Nat := if depth > 8 then 8 else depth

def maxread (depth : Nat) : Nat := (76 - indentOf depth * 8) / 4 * 3

/-- The lines of `PLIST_DATA`. -/
def dataLines (depth : Nat) : Nat → List UInt8 → List UInt8
  | 0, _ => []
  | _ + 1, [] => []
  | fuel + 1, buff =>
    tabs (indentOf depth) ++ base64encode (buff.take (maxread depth)) ++ [10] ++
      dataLines depth fuel (buff.drop (maxread depth))

/-- `<tag>` and `</tag>`. -/
def openTag (tag : String) : List UInt8 := ch '<' :: (lit tag ++ [ch '>'])

def closeTag (tag : String) : List UInt8 := ch '<' :: ch '/' :: (lit tag ++ [ch '>'])

/-- `<tag/>`. -/
def emptyTag (tag : String) : List UInt8 := ch '<' :: (lit tag ++ [ch '/', ch '>'])

/-- A node without children, from its tag to its closing tag. -/
def scalarToXml (conv : PrintConv) (depth : Nat) (length : Nat) : Scalar → List UInt8
  | .boolean boolval => if boolval ≠ 0 then emptyTag "true" else emptyTag "false"
  | .uint intval => openTag "integer" ++ decimal intval.toNat ++ closeTag "integer"
  | .real realval => openTag "real" ++ conv.dtostr realval ++ closeTag "real"
  | .string strval => openTag "string" ++ escape (strval.take length) ++ closeTag "string"
  | .key strval => openTag "key" ++ escape (strval.take length) ++ closeTag "key"
  | .data buff =>
    openTag "data" ++ [10] ++ dataLines depth length (buff.take length) ++ tabs depth ++
      closeTag "data"
  | .date realval =>
    match conv.strftime realval with
    | some val => openTag "date" ++ val ++ closeTag "date"
    | none => emptyTag "date"
  | .uid intval =>
    openTag "dict" ++ [10] ++ tabs (depth + 1) ++ lit "<key>CF$UID</key>" ++ [10] ++
      tabs (depth + 1) ++ lit "<integer>" ++ decimal intval.toNat ++ lit "</integer>" ++ [10] ++
      tabs depth ++ closeTag "dict"

mutual

def nodeToXml (conv : PrintConv) : Nat → Plist → List UInt8
  | depth, .scalar value length => tabs depth ++ scalarToXml conv depth length value ++ [10]
  | depth, .array children =>
    tabs depth ++ openTag "array" ++ [10] ++ nodesToXml conv (depth + 1) children ++ tabs depth ++
      closeTag "array" ++ [10]
  | depth, .dict children =>
    tabs depth ++ openTag "dict" ++ [10] ++ nodesToXml conv (depth + 1) children ++ tabs depth ++
      closeTag "dict" ++ [10]

/-- The loop over the children. -/
def nodesToXml (conv : PrintConv) : Nat → List Plist → List UInt8
  | _, [] => []
  | depth, node :: nodes => nodeToXml conv depth node ++ nodesToXml conv depth nodes

end

/-- `XML_PLIST_PROLOG`, in its lines. -/
def xmlLine : List UInt8 :=
  lit "<?xml version=\"1.0\" encoding=\"UTF-8\"?>"

def doctypeLine : List UInt8 :=
  lit "<!DOCTYPE plist PUBLIC \"-//Apple//DTD PLIST 1.0//EN\" " ++
    lit "\"http://www.apple.com/DTDs/PropertyList-1.0.dtd\">"

def plistLine : List UInt8 := lit "<plist version=\"1.0\">"

def xmlPlistProlog : List UInt8 := xmlLine ++ [10] ++ doctypeLine ++ [10] ++ plistLine ++ [10]

def xmlPlistEpilog : List UInt8 := closeTag "plist" ++ [10]

/-- `plist_to_xml`: the text, which a `NUL` follows, and `*length`. -/
def plistToXml (conv : PrintConv) (plist : Plist) : List UInt8 × Nat :=
  let text := xmlPlistProlog ++ nodeToXml conv 0 plist ++ xmlPlistEpilog
  (text, text.length % 2 ^ 32)

end IDeviceStack.Libplist.Xplist
