/-
# `Libplist.Bplist.Write` — the writer of `bplist.c`

`plist_to_bin` and the functions below it, as the code computes them.  The tree is
first flattened into the array `objects`: `serialize_plist` goes through it in
pre-order and enters each node in `ref_table`, unless the table has an equal one.
What is equal is decided by `plist_data_compare`, within the bucket of
`plist_data_hash`: for a container, and for the hash of a data node too, that is
the address of the node, so nodes have addresses here.

The objects are then written one after the other, with references to `objects` in
place of children, and after them the table of their offsets and the trailer.

The union of a boolean is 0 apart from `boolval`.  Memory is not exhausted.
Whether a `double` is equal to a `float`, and to which, is a parameter.
-/
import IDeviceStack.Libplist.Hashtable
import IDeviceStack.Libplist.Bplist.Parse

namespace IDeviceStack.Libplist.Bplist

open Lib

/-! ## Nodes -/

/-- A node in memory: its address, its data and its children. -/
inductive Node where
  | scalar (address : Nat) (value : Scalar) (length : Nat)
  | array (address : Nat) (children : List Node)
  | dict (address : Nat) (children : List Node)

def Node.address : Node → Nat
  | .scalar address _ _ => address
  | .array address _ => address
  | .dict address _ => address

def Node.children : Node → List Node
  | .scalar _ _ _ => []
  | .array _ children => children
  | .dict _ children => children

def Node.type : Node → PlistType
  | .scalar _ value _ => value.type
  | .array _ _ => .array
  | .dict _ _ => .dict

/-- The value of the enumerator. -/
def PlistType.code : PlistType → Nat
  | .boolean => 0
  | .uint => 1
  | .real => 2
  | .string => 3
  | .array => 4
  | .dict => 5
  | .date => 6
  | .data => 7
  | .key => 8
  | .uid => 9
  | .none => 10

/-- The union read as `intval`, for the types that are kept in the union itself. -/
def intval : Scalar → Option Nat
  | .boolean b => some b.toNat
  | .uint x => some x.toNat
  | .real x => some x.toNat
  | .date x => some x.toNat
  | .uid x => some x.toNat
  | .string _ => none
  | .key _ => none
  | .data _ => none

/-- The bytes that `plist_data_hash` goes over; not defined beyond the end of a string. -/
def hashedBytes : Node → Option (List UInt8)
  | .scalar address value length =>
    match value with
    | .string s => if length ≤ s.length + 1 then some ((s ++ [0]).take length) else none
    | .key s => if length ≤ s.length + 1 then some ((s ++ [0]).take length) else none
    | .data _ => some (leBytes 8 address)
    | value => (intval value).map (leBytes 8)
  | .array address _ => some (leBytes 8 address)
  | .dict address _ => some (leBytes 8 address)

def plistDataHash (node : Node) : Option (BitVec 32) := do
  let buff ← hashedBytes node
  some (buff.foldl
    (fun (hash : BitVec 32) (c : UInt8) => ((hash <<< 5) + hash) + c.toBitVec.signExtend 32)
    (BitVec.ofNat 32 (PlistType.code node.type) + 5381#32))

def plistDataCompare (a b : Node) : Bool :=
  if a.type ≠ b.type then false
  else
    match a, b with
    | .scalar _ (.string s) _, .scalar _ (.string t) _ => streq s t
    | .scalar _ (.key s) _, .scalar _ (.key t) _ => streq s t
    | .scalar _ (.data s) m, .scalar _ (.data t) n => m = n ∧ s.take m = t.take m
    | .scalar _ v m, .scalar _ w n => m = n ∧ intval v = intval w
    | a, b => a.address = b.address

/-! ## Flattening -/

/-- `struct serialize_s`. -/
structure SerializeS where
  objects : List Node
  refTable : HashTable Node Nat

/-- The beginning of `serialize_plist`: `none` inside if there is an equal node already. -/
def addObject (ser : SerializeS) (node : Node) : Option (Option SerializeS) := do
  let hash ← plistDataHash node
  let compare (key : Node) := some (plistDataCompare key node)
  match ← hashTableLookup ser.refTable hash compare with
  | some _ => some none
  | none => do
      let refTable ← hashTableInsert ser.refTable hash compare node ser.objects.length
      some (some ⟨ser.objects ++ [node], refTable⟩)

mutual

def serializePlist (ser : SerializeS) (node : Node) : Option SerializeS := do
  match ← addObject ser node with
  | none => some ser
  | some ser =>
    match node with
    | .scalar _ _ _ => some ser
    | .array _ children => serializeChildren ser children
    | .dict _ children => serializeChildren ser children

/-- The loop over the children. -/
def serializeChildren (ser : SerializeS) (children : List Node) : Option SerializeS :=
  match children with
  | [] => some ser
  | child :: children => do
      let ser ← serializePlist ser child
      serializeChildren ser children

end

/-! ## Scalars -/

/-- The last `size` bytes of a `uint64_t` after `be64toh`. -/
def beTail (val size : Nat) : List UInt8 := (leBytes 8 (bswap64 val)).drop (8 - size)

def log2 (x : Nat) : Nat := if x = 8 then 3 else if x = 4 then 2 else if x = 2 then 1 else 0

/-- `get_needed_bytes`, without the integer nodes of three bytes. -/
def intBytes (val : Nat) : Nat :=
  let size := getNeededBytes val
  if size = 3 then size + 1 else size

def writeInt (val : Nat) : List UInt8 :=
  UInt8.ofNat (BPLIST_UINT ||| log2 (intBytes val)) :: beTail val (intBytes val)

def writeUint (val : Nat) : List UInt8 :=
  UInt8.ofNat (BPLIST_UINT ||| 4) :: (leBytes 8 0 ++ leBytes 8 (bswap64 val))

/-- What `write_real` needs of the value: the `float` it is equal to, if there is one. -/
abbrev Narrow := Nat → Option Nat

def writeReal (build : Build) (narrow : Narrow) (val : Nat) : List UInt8 :=
  match narrow val with
  | some f =>
    UInt8.ofNat (BPLIST_REAL ||| log2 4) :: leBytes 4 (if build.littleEndian then bswap32 f else f)
  | none =>
    UInt8.ofNat (BPLIST_REAL ||| log2 8) ::
      leBytes 8 (if build.littleEndian then bswap64 val else val)

def writeDate (build : Build) (val : Nat) : List UInt8 :=
  UInt8.ofNat (BPLIST_DATE ||| 3) :: leBytes 8 (if build.littleEndian then bswap64 val else val)

/-- The marker of an object with a size, and the size if it does not fit in there. -/
def writeMarker (mark size : Nat) : List UInt8 :=
  UInt8.ofNat (mark ||| (if size < 15 then size else 0xf)) :: (if size ≥ 15 then writeInt size else [])

def writeRawData (mark : Nat) (val : List UInt8) (size : Nat) : List UInt8 :=
  writeMarker mark size ++ val.take (if BPLIST_UNICODE = mark then size <<< 1 else size)

def writeData (val : List UInt8) (size : Nat) : List UInt8 := writeRawData BPLIST_DATA val size

def writeString (val : List UInt8) : List UInt8 := writeRawData BPLIST_STRING val (strlen val)

def writeUnicode (val : List Nat) : List UInt8 :=
  writeRawData BPLIST_UNICODE (val.flatMap fun u => leBytes 2 (bswap16 u)) val.length

def writeUid (val : Nat) : List UInt8 :=
  let val := val % 2 ^ 32
  UInt8.ofNat (BPLIST_UID ||| (intBytes val - 1)) :: beTail val (intBytes val)

/-- `is_ascii_string`; `len` arrives as an `int`. -/
def isAsciiString (s : List UInt8) (len : Nat) : Bool :=
  (s.take (if len % 2 ^ 32 < 2 ^ 31 then len % 2 ^ 32 else 0)).all (· < 0x80)

/-- A string or a key. -/
def writeStrval (strval : List UInt8) : List UInt8 :=
  let len := strlen strval
  if isAsciiString strval len then writeString strval
  else writeUnicode (utf8ToUtf16 (strval.take len))

/-- The `switch` of `plist_to_bin`, on the types without children. -/
def writeScalar (build : Build) (narrow : Narrow) (value : Scalar) (length : Nat) : List UInt8 :=
  match value with
  | .boolean boolval => [if boolval ≠ 0 then 0x09 else 0x08]
  | .uint x => if length = 16 then writeUint x.toNat else writeInt x.toNat
  | .real x => writeReal build narrow x.toNat
  | .key s => writeStrval s
  | .string s => writeStrval s
  | .data buff => writeData buff length
  | .date x => writeDate build x.toNat
  | .uid x => writeUid x.toNat

/-! ## Containers -/

/-- `*hash_table_lookup(ref_table, node)`; not defined if the node is not there. -/
def nodeIndex (refTable : HashTable Node Nat) (node : Node) : Option Nat := do
  let hash ← plistDataHash node
  let index ← hashTableLookup refTable hash fun key => some (plistDataCompare key node)
  index

/-- The references of a container. -/
def writeRefs (refSize : Nat) (refs : List Nat) : List UInt8 := refs.flatMap fun i => beTail i refSize

def writeArray (refTable : HashTable Node Nat) (refSize : Nat) (children : List Node) :
    Option (List UInt8) := do
  let refs ← children.mapM (nodeIndex refTable)
  some (writeMarker BPLIST_ARRAY children.length ++ writeRefs refSize refs)

/-- The children of a dictionary, two by two. -/
def dictPairs : List Node → List (Node × Node)
  | key :: val :: rest => (key, val) :: dictPairs rest
  | _ => []

/-- `write_dict`: the keys, then the values. -/
def writeDict (refTable : HashTable Node Nat) (refSize : Nat) (children : List Node) :
    Option (List UInt8) := do
  let keys ← (dictPairs children).mapM fun p => nodeIndex refTable p.1
  let vals ← (dictPairs children).mapM fun p => nodeIndex refTable p.2
  some (writeMarker BPLIST_DICT (children.length / 2) ++ writeRefs refSize keys ++
    writeRefs refSize vals)

/-- The `switch` of `plist_to_bin`. -/
def writeNode (build : Build) (narrow : Narrow) (refTable : HashTable Node Nat) (refSize : Nat) :
    Node → Option (List UInt8)
  | .scalar _ value length => some (writeScalar build narrow value length)
  | .array _ children => writeArray refTable refSize children
  | .dict _ children => writeDict refTable refSize children

/-! ## The file -/

/-- The loop over the objects: the buffer and the offsets. -/
def writeObjects (write : Node → Option (List UInt8)) :
    List Node → List UInt8 → List Nat → Option (List UInt8 × List Nat)
  | [], buff, offsets => some (buff, offsets)
  | node :: nodes, buff, offsets => do
      let bytes ← write node
      writeObjects write nodes (buff ++ bytes) (offsets ++ [buff.length])

def plistToBin (build : Build) (narrow : Narrow) (plist : Node) : Option (List UInt8) := do
  let ser ← serializePlist ⟨[], hashTableNew⟩ plist
  let numObjects := ser.objects.length
  let refSize := getNeededBytes numObjects
  let (buff, offsets) ← writeObjects (writeNode build narrow ser.refTable refSize) ser.objects
    (BPLIST_MAGIC ++ BPLIST_VERSION) []
  let offsetSize := getNeededBytes buff.length
  let trailer := List.replicate 6 0 ++ [UInt8.ofNat offsetSize, UInt8.ofNat refSize] ++
    leBytes 8 (bswap64 numObjects) ++ leBytes 8 (bswap64 0) ++ leBytes 8 (bswap64 buff.length)
  some (buff ++ offsets.flatMap (fun offset => beTail offset offsetSize) ++ trailer)

end IDeviceStack.Libplist.Bplist
