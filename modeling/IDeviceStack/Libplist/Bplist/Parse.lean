/-
# `Libplist.Bplist.Parse` — the reader of `bplist.c`

`plist_from_bin` and the functions below it, as the code computes them: pointers
are 64-bit addresses, sizes and counts are `uint64_t`, an object index is a
`uint32_t`.

* Arithmetic goes through an `Arith`: `Arith.machine` wraps as the machine does,
  `Arith.exact` does not wrap at all.  Comparing the two shows whether any test
  depends on wrapping.
* A read goes through `Mem.load` and stops the run with `Stop.fault` if it is
  outside the buffer.
* Recursion is bounded by `fuel`; running out of it stops the run with
  `Stop.fuel`.
* `Call`s are a log of the calls of `parse_bin_node_at_index` that got as far as
  the recursion check.  The log, and the `path` of objects being parsed that is
  recorded in it, take no part in the computation.

Nodes are trees here: a node is built, filled and returned by one function, and
`node_attach` appends to its children.  `used_indexes` is the sequence it stands
for; it is appended to, and set at indices other than 0.  Memory is not
exhausted, and the result of a 32-bit float conversion is a parameter.  The
`int` in which `plist_utf16_to_utf8` counts what it writes is that of
`Bplist.Conversion`; here a text may be longer.
-/
import IDeviceStack.Libplist.Bplist.Uint
import IDeviceStack.Libplist.Bplist.Utf16

namespace IDeviceStack.Libplist.Bplist

open Lib

/-- Why a run stops before the function returns. -/
inductive Stop where
  | fault (address : Nat)
  | fuel
  deriving DecidableEq, Repr

@[simp] theorem ok_bind {α β : Type} (a : α) (f : α → Except Stop β) : (.ok a >>= f) = f a := rfl

/-- The buffer, at its address. -/
structure Mem where
  base : Nat
  bytes : List UInt8

def Mem.load (m : Mem) (a : Nat) : Except Stop UInt8 :=
  if a < m.base then
    .error (.fault a)
  else
    match m.bytes[a - m.base]? with
    | some b => .ok b
    | none => .error (.fault a)

/-- `n` bytes from `a` on. -/
def Mem.loads (m : Mem) (a : Nat) : Nat → Except Stop (List UInt8)
  | 0 => .ok []
  | n + 1 => do
      let b ← m.load a
      let bs ← Mem.loads m (a + 1) n
      .ok (b :: bs)

/-- What becomes of a result of 64-bit and of 32-bit arithmetic. -/
structure Arith where
  w64 : Nat → Nat
  w32 : Nat → Nat

def Arith.machine : Arith := ⟨(· % 2 ^ 64), (· % 2 ^ 32)⟩

def Arith.exact : Arith := ⟨id, id⟩

/-- What does not change during a run: the arithmetic, the build, the buffer, and what a `float`
becomes as a `double`. -/
structure Ctx where
  arith : Arith
  build : Build
  mem : Mem
  widen : Nat → Nat

/-- `UINT_TO_HOST` at address `x`; its width is a `uint8_t`. -/
def Ctx.uintAt (c : Ctx) (x n : Nat) : Except Stop Nat := do
  let bs ← c.mem.loads x (uintBytes (n % 256))
  .ok (uintToHost c.build (n % 256) bs)

/-- `be64toh` of a field of the trailer. -/
def Ctx.be64At (c : Ctx) (x : Nat) : Except Stop Nat := do
  let bs ← c.mem.loads x 8
  .ok (bswap64 (leVal bs))

/-- A call of `parse_bin_node_at_index`, at its recursion check. -/
structure Call where
  path : List Nat
  index : Nat
  level : Nat
  used : List Nat
  recursion : Bool

/-- `struct bplist_data`, the part that stays. -/
structure BplistData where
  data : Nat
  size : Nat
  numObjects : Nat
  refSize : Nat
  offsetSize : Nat
  offsetTable : Nat

/-- `struct bplist_data`, the part that changes, and the log. -/
structure ParseState where
  level : Nat
  usedIndexes : List Nat
  calls : List Call

abbrev Parsed := Except Stop (Option Plist × ParseState)

/-! ## Nodes without children -/

def parseUintNode (c : Ctx) (bnode size : Nat) : Except Stop (Option Plist) := do
  let size := (1 <<< size) % 256
  if size = 1 ∨ size = 2 ∨ size = 4 ∨ size = 8 then
    let intval ← c.uintAt bnode size
    .ok (some (.scalar (.uint (UInt64.ofNat intval)) 8))
  else if size = 16 then
    let intval ← c.uintAt bnode size
    .ok (some (.scalar (.uint (UInt64.ofNat intval)) 16))
  else
    .ok none

/-- The bit pattern that `parse_real_node` finds. -/
def parseRealBits (c : Ctx) (bnode size : Nat) : Except Stop (Option Nat) := do
  let size := (1 <<< size) % 256
  if size = 4 then
    let bs ← c.mem.loads bnode 4
    let bits := if c.build.littleEndian then bswap32 (leVal bs) else leVal bs
    .ok (some (c.widen bits))
  else if size = 8 then
    let bs ← c.mem.loads bnode 8
    .ok (some (if c.build.littleEndian then bswap64 (leVal bs) else leVal bs))
  else
    .ok none

def parseRealNode (c : Ctx) (bnode size : Nat) : Except Stop (Option Plist) := do
  let bits ← parseRealBits c bnode size
  .ok (bits.map fun b => .scalar (.real (UInt64.ofNat b)) 8)

/-- `parse_date_node`; its caller has checked that `size` is 3, so there is a node. -/
def parseDateNode (c : Ctx) (bnode size : Nat) : Except Stop (Option Plist) := do
  let bits ← parseRealBits c bnode size
  .ok (bits.map fun b => .scalar (.date (UInt64.ofNat b)) 8)

def parseStringNode (c : Ctx) (bnode size : Nat) : Except Stop (Option Plist) := do
  let strval ← c.mem.loads bnode size
  .ok (some (.scalar (.string strval) (strlen strval)))

/-- The loop of `parse_unicode_node` that reads `n` code units. -/
def loadUnits (c : Ctx) (bnode : Nat) : Nat → Except Stop (List Nat)
  | 0 => .ok []
  | n + 1 => do
      let bs ← c.mem.loads bnode 2
      let us ← loadUnits c (bnode + 2) n
      .ok (bswap16 (leVal bs) :: us)

def parseUnicodeNode (c : Ctx) (bnode size : Nat) : Except Stop (Option Plist) := do
  let unicodestr ← loadUnits c bnode size
  if size = 0 then
    .ok none
  else
    let strval := utf16ToUtf8 unicodestr
    .ok (some (.scalar (.string strval) strval.length))

def parseDataNode (c : Ctx) (bnode size : Nat) : Except Stop (Option Plist) := do
  let buff ← c.mem.loads bnode size
  .ok (some (.scalar (.data buff) size))

def parseUidNode (c : Ctx) (bnode size : Nat) : Except Stop (Option Plist) := do
  let intval ← c.uintAt bnode (size + 1)
  if intval > 0xffffffff then
    .ok none
  else
    .ok (some (.scalar (.uid (UInt64.ofNat intval)) 8))

/-! ## Nodes with children -/

/-- An object reference at `ptr`, if it is in range and below the number of objects. -/
def refAt (c : Ctx) (bp : BplistData) (ptr : Nat) : Except Stop (Option Nat) := do
  if ptr < bp.data ∨ c.arith.w64 (ptr + bp.refSize) > bp.offsetTable then
    .ok none
  else
    let index ← c.uintAt ptr bp.refSize
    if index ≥ bp.numObjects then .ok none else .ok (some index)

/-- The loop of `parse_array_node` from `j` on, with `n` turns to go. -/
def parseArrayLoop (c : Ctx) (bp : BplistData) (atIndex : Nat → ParseState → Parsed) (bnode : Nat) :
    Nat → Nat → List Plist → ParseState → Parsed
  | 0, _, children, st => .ok (some (.array children), st)
  | n + 1, j, children, st => do
      let strJ := c.arith.w64 (j * bp.refSize)
      match ← refAt c bp (c.arith.w64 (bnode + strJ)) with
      | none => .ok (none, st)
      | some index1 => do
          let (val, st) ← atIndex (c.arith.w32 index1) st
          match val with
          | none => .ok (none, st)
          | some val => parseArrayLoop c bp atIndex bnode n (j + 1) (children ++ [val]) st

/-- A parsed key, its type changed to `PLIST_KEY`. -/
def asKey : Plist → Option Plist
  | .scalar (.string s) length => some (.scalar (.key s) length)
  | _ => none

/-- Both references of entry `j` of a dictionary.  The two range tests come before either
reference is read. -/
def dictRefs (c : Ctx) (bp : BplistData) (bnode size j : Nat) : Except Stop (Option (Nat × Nat)) := do
  let strI := c.arith.w64 (j * bp.refSize)
  let strJ := c.arith.w64 (c.arith.w64 (j + size) * bp.refSize)
  let index1Ptr := c.arith.w64 (bnode + strI)
  let index2Ptr := c.arith.w64 (bnode + strJ)
  if (index1Ptr < bp.data ∨ c.arith.w64 (index1Ptr + bp.refSize) > bp.offsetTable) ∨
      (index2Ptr < bp.data ∨ c.arith.w64 (index2Ptr + bp.refSize) > bp.offsetTable) then
    .ok none
  else
    let index1 ← c.uintAt index1Ptr bp.refSize
    let index2 ← c.uintAt index2Ptr bp.refSize
    if index1 ≥ bp.numObjects then .ok none
    else if index2 ≥ bp.numObjects then .ok none
    else .ok (some (index1, index2))

/-- The loop of `parse_dict_node` from `j` on, with `n` turns to go. -/
def parseDictLoop (c : Ctx) (bp : BplistData) (atIndex : Nat → ParseState → Parsed)
    (bnode size : Nat) : Nat → Nat → List Plist → ParseState → Parsed
  | 0, _, children, st => .ok (some (.dict children), st)
  | n + 1, j, children, st => do
      match ← dictRefs c bp bnode size j with
      | none => .ok (none, st)
      | some (index1, index2) => do
          let (key, st) ← atIndex (c.arith.w32 index1) st
          match key.bind asKey with
          | none => .ok (none, st)
          | some key => do
              let (val, st) ← atIndex (c.arith.w32 index2) st
              match val with
              | none => .ok (none, st)
              | some val =>
                parseDictLoop c bp atIndex bnode size n (j + 1) (children ++ [key, val]) st

/-! ## One object -/

/-- The types of `BPLIST_MASK` that `parse_bin_node` knows. -/
def BPLIST_NULL : Nat := 0x00
def BPLIST_UINT : Nat := 0x10
def BPLIST_REAL : Nat := 0x20
def BPLIST_DATE : Nat := 0x30
def BPLIST_DATA : Nat := 0x40
def BPLIST_STRING : Nat := 0x50
def BPLIST_UNICODE : Nat := 0x60
def BPLIST_UID : Nat := 0x80
def BPLIST_ARRAY : Nat := 0xA0
def BPLIST_SET : Nat := 0xC0
def BPLIST_DICT : Nat := 0xD0

/-- The types whose size may stand in an integer of its own. -/
def hasSizeNode (type : Nat) : Bool :=
  type = BPLIST_DATA ∨ type = BPLIST_STRING ∨ type = BPLIST_UNICODE ∨ type = BPLIST_ARRAY ∨
    type = BPLIST_SET ∨ type = BPLIST_DICT

/-- The beginning of `parse_bin_node`: type, size and the address of the rest. -/
def parseHeader (c : Ctx) (bp : BplistData) (object : Nat) :
    Except Stop (Option (Nat × Nat × Nat)) := do
  let marker ← c.mem.load object
  let type := marker.toNat &&& 0xF0
  let size := marker.toNat &&& 0x0F
  let object := c.arith.w64 (object + 1)
  if size = 0x0F ∧ hasSizeNode type then
    let b ← c.mem.load object
    let nextSize := b.toNat &&& 0x0F
    if b.toNat &&& 0xF0 ≠ BPLIST_UINT then
      .ok none
    else
      let object := c.arith.w64 (object + 1)
      let nextSize := 1 <<< nextSize
      if c.arith.w64 (object + nextSize) > bp.offsetTable then
        .ok none
      else
        let size ← c.uintAt object nextSize
        .ok (some (type, size, c.arith.w64 (object + nextSize)))
  else
    .ok (some (type, size, object))

/-- The test of the kinds with a body of `size` bytes. -/
def bodyOutside (c : Ctx) (bp : BplistData) (pobject size : Nat) : Bool :=
  c.arith.w64 (pobject + size) < pobject ∨ c.arith.w64 (pobject + size) > bp.offsetTable

/-- The `switch` of `parse_bin_node`. -/
def parseBody (c : Ctx) (bp : BplistData) (atIndex : Nat → ParseState → Parsed)
    (type size pobject : Nat) (st : ParseState) : Parsed := do
  let leaf (r : Except Stop (Option Plist)) : Parsed := do
    let node ← r
    .ok (node, st)
  if type = BPLIST_NULL then
    if size = 0x09 then leaf (.ok (some (.scalar (.boolean 1) 1)))
    else if size = 0x08 then leaf (.ok (some (.scalar (.boolean 0) 1)))
    else leaf (.ok none)
  else if type = BPLIST_UINT then
    if c.arith.w64 (pobject + 1 <<< size) > bp.offsetTable then leaf (.ok none)
    else leaf (parseUintNode c pobject size)
  else if type = BPLIST_REAL then
    if c.arith.w64 (pobject + 1 <<< size) > bp.offsetTable then leaf (.ok none)
    else leaf (parseRealNode c pobject size)
  else if type = BPLIST_DATE then
    if size ≠ 3 then leaf (.ok none)
    else if c.arith.w64 (pobject + 1 <<< size) > bp.offsetTable then leaf (.ok none)
    else leaf (parseDateNode c pobject size)
  else if type = BPLIST_DATA then
    if bodyOutside c bp pobject size then leaf (.ok none)
    else leaf (parseDataNode c pobject size)
  else if type = BPLIST_STRING then
    if bodyOutside c bp pobject size then leaf (.ok none)
    else leaf (parseStringNode c pobject size)
  else if type = BPLIST_UNICODE then
    if c.arith.w64 (size * 2) < size then leaf (.ok none)
    else if bodyOutside c bp pobject (c.arith.w64 (size * 2)) then leaf (.ok none)
    else leaf (parseUnicodeNode c pobject size)
  else if type = BPLIST_SET ∨ type = BPLIST_ARRAY then
    if bodyOutside c bp pobject size then leaf (.ok none)
    else parseArrayLoop c bp atIndex pobject size 0 [] st
  else if type = BPLIST_UID then
    if c.arith.w64 (pobject + size + 1) > bp.offsetTable then leaf (.ok none)
    else leaf (parseUidNode c pobject size)
  else if type = BPLIST_DICT then
    if bodyOutside c bp pobject size then leaf (.ok none)
    else parseDictLoop c bp atIndex pobject size size 0 [] st
  else
    leaf (.ok none)

def parseBinNode (c : Ctx) (bp : BplistData) (atIndex : Nat → ParseState → Parsed) (object : Nat)
    (st : ParseState) : Parsed := do
  match ← parseHeader c bp object with
  | none => .ok (none, st)
  | some (type, size, pobject) => parseBody c bp atIndex type size pobject st

/-- Where the object `nodeIndex` is, if that is in range. -/
def objectAddress (c : Ctx) (bp : BplistData) (nodeIndex : Nat) : Except Stop (Option Nat) := do
  if nodeIndex ≥ bp.numObjects then
    .ok none
  else
    let idxPtr := c.arith.w64 (bp.offsetTable + c.arith.w32 (nodeIndex * bp.offsetSize))
    if idxPtr < bp.offsetTable ∨
        idxPtr ≥ c.arith.w64 (bp.offsetTable + c.arith.w64 (bp.numObjects * bp.offsetSize)) then
      .ok none
    else
      let offset ← c.uintAt idxPtr bp.offsetSize
      let ptr := c.arith.w64 (bp.data + offset)
      if ptr < bp.data ∨ ptr ≥ bp.offsetTable then .ok none else .ok (some ptr)

/-- Note the index for the current level: append while the array is too short, else replace. -/
def noteIndex (used : List Nat) (level nodeIndex : Nat) : List Nat :=
  if used.length < level + 1 then
    used ++ List.replicate (level + 1 - used.length) nodeIndex
  else
    used.set level nodeIndex

/-- The recursion check: the index of this level stands at a lower one. -/
def recursionDetected (used : List Nat) (level : Nat) : Bool :=
  (List.range level).any fun i =>
    match used[i]?, used[level]? with
    | some a, some b => a == b
    | _, _ => false

/-- `parse_bin_node_at_index`; `path` are the objects being parsed. -/
def parseBinNodeAtIndex (c : Ctx) (bp : BplistData) :
    Nat → List Nat → Nat → ParseState → Parsed
  | 0, _, _, _ => .error .fuel
  | fuel + 1, path, nodeIndex, st => do
      match ← objectAddress c bp nodeIndex with
      | none => .ok (none, st)
      | some ptr => do
          let used := noteIndex st.usedIndexes st.level nodeIndex
          let recursion := recursionDetected used st.level
          let st :=
            { st with
              usedIndexes := used
              calls := st.calls ++ [⟨path, nodeIndex, st.level, used, recursion⟩] }
          if recursion then
            .ok (none, st)
          else
            let (plist, st) ← parseBinNode c bp
              (parseBinNodeAtIndex c bp fuel (path ++ [nodeIndex])) ptr
              { st with level := st.level + 1 }
            .ok (plist, { st with level := st.level - 1 })

/-! ## The whole file -/

/-- The bytes of `BPLIST_MAGIC` and `BPLIST_VERSION`. -/
def BPLIST_MAGIC : List UInt8 := [0x62, 0x70, 0x6c, 0x69, 0x73, 0x74]
def BPLIST_VERSION : List UInt8 := [0x30, 0x30]

/-- The tests of `plist_from_bin`, up to the point where parsing starts: the `bplist_data` and the
index of the root. -/
def openBplist (c : Ctx) : Except Stop (Option (BplistData × Nat)) := do
  let plistBin := c.mem.base
  let length := c.mem.bytes.length
  if ¬ length ≥ 6 + 2 + 32 then
    .ok none
  else
    let magic ← c.mem.loads plistBin 6
    if magic ≠ BPLIST_MAGIC then
      .ok none
    else
      let version ← c.mem.loads (c.arith.w64 (plistBin + 6)) 2
      if version ≠ BPLIST_VERSION then
        .ok none
      else
        let startData := c.arith.w64 (plistBin + 8)
        let endData := c.arith.w64 (plistBin + length - 32)
        let offsetSize ← c.mem.load (c.arith.w64 (endData + 6))
        let refSize ← c.mem.load (c.arith.w64 (endData + 7))
        let numObjects ← c.be64At (c.arith.w64 (endData + 8))
        let rootObject ← c.be64At (c.arith.w64 (endData + 16))
        let offsetTableOffset ← c.be64At (c.arith.w64 (endData + 24))
        let offsetTable := c.arith.w64 (plistBin + offsetTableOffset)
        if numObjects = 0 then .ok none
        else if offsetSize.toNat = 0 then .ok none
        else if refSize.toNat = 0 then .ok none
        else if rootObject ≥ numObjects then .ok none
        else if offsetTable < startData ∨ offsetTable ≥ endData then .ok none
        else if numObjects > (2 ^ 64 - 1) / offsetSize.toNat then .ok none
        else
          let offsetTableSize := c.arith.w64 (numObjects * offsetSize.toNat)
          if c.arith.w64 (offsetTable + offsetTableSize) < offsetTable ∨
              c.arith.w64 (offsetTable + offsetTableSize) > endData then
            .ok none
          else
            .ok (some
              (⟨plistBin, length, numObjects, refSize.toNat, offsetSize.toNat, offsetTable⟩,
                rootObject))

/-- `plist_from_bin`: the plist (`none` for `NULL`) and the log. -/
def plistFromBin (c : Ctx) (fuel : Nat) : Except Stop (Option Plist × List Call) := do
  match ← openBplist c with
  | none => .ok (none, [])
  | some (bp, rootObject) => do
      let (plist, st) ← parseBinNodeAtIndex c bp fuel [] (c.arith.w32 rootObject) ⟨0, [], []⟩
      .ok (plist, st.calls)

end IDeviceStack.Libplist.Bplist
