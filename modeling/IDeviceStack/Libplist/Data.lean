/-
# `Libplist.Data` — the data of a plist node

`struct plist_data_s` is a union tagged by `type`, with a `length` beside it.
The tag and the member it selects are one value here: `Scalar` for the types
without children, and for the others (`PLIST_ARRAY`, `PLIST_DICT`) whatever the
module at hand needs.

A C string is the list of the bytes before its terminator; the terminator itself
is the byte after the last one.  Doubles (`PLIST_REAL`, `PLIST_DATE`) are opaque
64-bit patterns.
-/
import Mathlib.Data.List.TakeWhile

namespace IDeviceStack.Libplist

/-- `plist_type`. -/
inductive PlistType where
  | boolean | uint | real | string | array | dict | date | data | key | uid | none
  deriving DecidableEq, Repr

/-- The members of the union that hold a value. -/
inductive Scalar where
  | boolean (boolval : UInt8)
  | uint (intval : UInt64)
  | real (realval : UInt64)
  | string (strval : List UInt8)
  | date (realval : UInt64)
  | data (buff : List UInt8)
  | key (strval : List UInt8)
  | uid (intval : UInt64)
  deriving DecidableEq, Repr

def Scalar.type : Scalar → PlistType
  | .boolean _ => .boolean
  | .uint _ => .uint
  | .real _ => .real
  | .string _ => .string
  | .date _ => .date
  | .data _ => .data
  | .key _ => .key
  | .uid _ => .uid

/-- A plist as a tree: the data of the nodes and their children, in order.  The children of a
dictionary are its keys and values in turn. -/
inductive Plist where
  | scalar (value : Scalar) (length : Nat)
  | array (children : List Plist)
  | dict (children : List Plist)

/-- The bytes `strlen`, `strcmp` and `strdup` see of a buffer that is followed by a `NUL`. -/
def cstr (s : List UInt8) : List UInt8 := s.takeWhile (· ≠ 0)

def strlen (s : List UInt8) : Nat := (cstr s).length

/-- `strcmp(s, t) == 0`. -/
def streq (s t : List UInt8) : Bool := cstr s == cstr t

/-- A statement about the bytes of a list is decided on these, not on all 256. -/
instance (priority := high) decidableForallMemByte (s : List UInt8) (p : UInt8 → Prop)
    [DecidablePred p] : Decidable (∀ c ∈ s, p c) := List.decidableBAll p s

/-- No byte of `s` is a `NUL`. -/
def NulFree (s : List UInt8) : Prop := ∀ c ∈ s, c ≠ 0

instance (s : List UInt8) : Decidable (NulFree s) := inferInstanceAs (Decidable (∀ c ∈ s, c ≠ 0))

theorem cstr_of_nulFree {s : List UInt8} (hs : NulFree s) : cstr s = s :=
  List.takeWhile_eq_self_iff.mpr fun c hc => by simpa using hs c hc

theorem nulFree_cstr (s : List UInt8) : NulFree (cstr s) :=
  fun _ hc => by simpa using List.mem_takeWhile_imp hc

@[simp] theorem cstr_cstr (s : List UInt8) : cstr (cstr s) = cstr s :=
  cstr_of_nulFree (nulFree_cstr s)

end IDeviceStack.Libplist
