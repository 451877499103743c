/-
# `Libplist.Bplist.Objects` — a buffer as a graph of objects

What the reader makes of a buffer, said without pointers: an object is found at
its index, and is either a node without children, or a list of references to
other objects (`Obj`).  All positions are offsets into the buffer and all
arithmetic is exact.  `walkAt` follows the references as
`parse_bin_node_at_index` does, with the same bookkeeping of `used_indexes`.

`IDeviceStack.Libplist.Bplist.Bounds` shows that the code does exactly this.
-/
import IDeviceStack.Libplist.Bplist.Parse

namespace IDeviceStack.Libplist.Bplist

open Lib

/-- An object: a node without children (`none` if it is malformed), or references to the children
(`none` for one that is out of range). -/
inductive Obj where
  | leaf (node : Option Plist)
  | array (refs : List (Option Nat))
  | dict (refs : List (Option (Nat × Nat)))

/-! ## Following the references -/

/-- The loop of `parse_array_node`. -/
def walkArray (atIndex : Nat → ParseState → Parsed) :
    List (Option Nat) → List Plist → ParseState → Parsed
  | [], children, st => .ok (some (.array children), st)
  | none :: _, _, st => .ok (none, st)
  | some index :: refs, children, st => do
      let (val, st) ← atIndex index st
      match val with
      | none => .ok (none, st)
      | some val => walkArray atIndex refs (children ++ [val]) st

/-- The loop of `parse_dict_node`. -/
def walkDict (atIndex : Nat → ParseState → Parsed) :
    List (Option (Nat × Nat)) → List Plist → ParseState → Parsed
  | [], children, st => .ok (some (.dict children), st)
  | none :: _, _, st => .ok (none, st)
  | some (index1, index2) :: refs, children, st => do
      let (key, st) ← atIndex index1 st
      match key.bind asKey with
      | none => .ok (none, st)
      | some key => do
          let (val, st) ← atIndex index2 st
          match val with
          | none => .ok (none, st)
          | some val => walkDict atIndex refs (children ++ [key, val]) st

/-- `parse_bin_node` on an object. -/
def walkObj (atIndex : Nat → ParseState → Parsed) (obj : Obj) (st : ParseState) : Parsed :=
  match obj with
  | .leaf node => .ok (node, st)
  | .array refs => walkArray atIndex refs [] st
  | .dict refs => walkDict atIndex refs [] st

/-- `parse_bin_node_at_index` on a graph. -/
def walkAt (graph : Nat → Option Obj) : Nat → List Nat → Nat → ParseState → Parsed
  | 0, _, _, _ => .error .fuel
  | fuel + 1, path, nodeIndex, st =>
    match graph nodeIndex with
    | none => .ok (none, st)
    | some obj =>
      let used := noteIndex st.usedIndexes st.level nodeIndex
      let recursion := recursionDetected used st.level
      let st :=
        { st with
          usedIndexes := used
          calls := st.calls ++ [⟨path, nodeIndex, st.level, used, recursion⟩] }
      if recursion then
        .ok (none, st)
      else do
        let (plist, st) ← walkObj (walkAt graph fuel (path ++ [nodeIndex])) obj
          { st with level := st.level + 1 }
        .ok (plist, { st with level := st.level - 1 })

/-! ## The objects of a buffer -/

/-- `n` bytes from offset `o` on. -/
def slice (bytes : List UInt8) (o n : Nat) : List UInt8 := (bytes.drop o).take n

/-- A buffer and what its trailer says, in offsets. -/
structure Layout where
  build : Build
  widen : Nat → Nat
  bytes : List UInt8
  numObjects : Nat
  refSize : Nat
  offsetSize : Nat
  offsetTable : Nat

namespace Layout

variable (l : Layout)

/-- An integer of `n` bytes. -/
def uint (o n : Nat) : Nat := uintToHost l.build (n % 256) (slice l.bytes o (uintBytes (n % 256)))

/-- Type, size and the offset of what follows, of the object at `o`. -/
def header (o : Nat) : Option (Nat × Nat × Nat) :=
  let marker := (l.bytes.getD o 0).toNat
  let type := marker &&& 0xF0
  let size := marker &&& 0x0F
  if size = 0x0F ∧ hasSizeNode type then
    let b := (l.bytes.getD (o + 1) 0).toNat
    if b &&& 0xF0 ≠ BPLIST_UINT then none
    else if o + 2 + 1 <<< (b &&& 0x0F) > l.offsetTable then none
    else some (type, l.uint (o + 2) (1 <<< (b &&& 0x0F)), o + 2 + 1 <<< (b &&& 0x0F))
  else
    some (type, size, o + 1)

/-- A real or a date of `1 << size` bytes. -/
def realBits (o size : Nat) : Option Nat :=
  if (1 <<< size) % 256 = 4 then
    let v := leVal (slice l.bytes o 4)
    some (l.widen (if l.build.littleEndian then bswap32 v else v))
  else if (1 <<< size) % 256 = 8 then
    let v := leVal (slice l.bytes o 8)
    some (if l.build.littleEndian then bswap64 v else v)
  else
    none

/-- The code units of a string. -/
def units (o n : Nat) : List Nat :=
  (List.range n).map fun i => bswap16 (leVal (slice l.bytes (o + 2 * i) 2))

/-- A node without children, whose body begins at `o`. -/
def leaf (type size o : Nat) : Option Plist :=
  if type = BPLIST_NULL then
    if size = 0x09 then some (.scalar (.boolean 1) 1)
    else if size = 0x08 then some (.scalar (.boolean 0) 1)
    else none
  else if type = BPLIST_UINT then
    if o + 1 <<< size > l.offsetTable then none
    else
      let n := (1 <<< size) % 256
      if n = 1 ∨ n = 2 ∨ n = 4 ∨ n = 8 then some (.scalar (.uint (UInt64.ofNat (l.uint o n))) 8)
      else if n = 16 then some (.scalar (.uint (UInt64.ofNat (l.uint o n))) 16)
      else none
  else if type = BPLIST_REAL then
    if o + 1 <<< size > l.offsetTable then none
    else (l.realBits o size).map fun b => .scalar (.real (UInt64.ofNat b)) 8
  else if type = BPLIST_DATE then
    if size ≠ 3 then none
    else if o + 1 <<< size > l.offsetTable then none
    else (l.realBits o size).map fun b => .scalar (.date (UInt64.ofNat b)) 8
  else if type = BPLIST_DATA then
    if o + size > l.offsetTable then none else some (.scalar (.data (slice l.bytes o size)) size)
  else if type = BPLIST_STRING then
    if o + size > l.offsetTable then none
    else some (.scalar (.string (slice l.bytes o size)) (strlen (slice l.bytes o size)))
  else if type = BPLIST_UNICODE then
    if o + size * 2 > l.offsetTable then none
    else if size = 0 then none
    else
      let s := utf16ToUtf8 (l.units o size)
      some (.scalar (.string s) s.length)
  else if type = BPLIST_UID then
    if o + size + 1 > l.offsetTable then none
    else if l.uint o (size + 1) > 0xffffffff then none
    else some (.scalar (.uid (UInt64.ofNat (l.uint o (size + 1)))) 8)
  else
    none

/-- The reference at `o`. -/
def ref (o : Nat) : Option Nat :=
  if o + l.refSize > l.offsetTable then none
  else if l.uint o l.refSize ≥ l.numObjects then none
  else some (l.uint o l.refSize)

/-- The references of entry `j` of a dictionary of `size` entries. -/
def refPair (o size j : Nat) : Option (Nat × Nat) := do
  let index1 ← l.ref (o + j * l.refSize)
  let index2 ← l.ref (o + (j + size) * l.refSize)
  some (index1, index2)

/-- The object at offset `o`. -/
def object (o : Nat) : Obj :=
  match l.header o with
  | none => .leaf none
  | some (type, size, body) =>
    if type = BPLIST_SET ∨ type = BPLIST_ARRAY then
      if body + size > l.offsetTable then .leaf none
      else .array ((List.range size).map fun j => l.ref (body + j * l.refSize))
    else if type = BPLIST_DICT then
      if body + size > l.offsetTable then .leaf none
      else .dict ((List.range size).map (l.refPair body size))
    else
      .leaf (l.leaf type size body)

/-- The object with this index. -/
def graph (i : Nat) : Option Obj :=
  if i ≥ l.numObjects then none
  else
    let offset := l.uint (l.offsetTable + i * l.offsetSize) l.offsetSize
    if offset ≥ l.offsetTable then none else some (l.object offset)

end Layout

/-- A big-endian `uint64_t` of the trailer. -/
def be64 (bytes : List UInt8) (o : Nat) : Nat := bswap64 (leVal (slice bytes o 8))

/-- The tests of `plist_from_bin`: the layout and the index of the root. -/
def openLayout (build : Build) (widen : Nat → Nat) (bytes : List UInt8) : Option (Layout × Nat) :=
  let endData := bytes.length - 32
  let offsetSize := (bytes.getD (endData + 6) 0).toNat
  let refSize := (bytes.getD (endData + 7) 0).toNat
  let numObjects := be64 bytes (endData + 8)
  let rootObject := be64 bytes (endData + 16)
  let offsetTable := be64 bytes (endData + 24)
  if bytes.length < 40 then none
  else if slice bytes 0 6 ≠ BPLIST_MAGIC then none
  else if slice bytes 6 2 ≠ BPLIST_VERSION then none
  else if numObjects = 0 ∨ offsetSize = 0 ∨ refSize = 0 ∨ rootObject ≥ numObjects then none
  else if offsetTable < 8 ∨ offsetTable ≥ endData then none
  else if offsetTable + numObjects * offsetSize > endData then none
  else some (⟨build, widen, bytes, numObjects, refSize, offsetSize, offsetTable⟩, rootObject)

/-- `plist_from_bin` on the graph of the buffer. -/
def walkBin (build : Build) (widen : Nat → Nat) (bytes : List UInt8) (fuel : Nat) :
    Except Stop (Option Plist × List Call) := do
  match openLayout build widen bytes with
  | none => .ok (none, [])
  | some (l, rootObject) => do
      let (plist, st) ← walkAt l.graph fuel [] rootObject ⟨0, [], []⟩
      .ok (plist, st.calls)

end IDeviceStack.Libplist.Bplist
