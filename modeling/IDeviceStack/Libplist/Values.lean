/-
# `Libplist.Values` — the values of nodes, and what is asserted of them

`plist_get_string_val`, `plist_get_uint_val`, `plist_get_data_val` and
`plist_dict_get_item`, on trees.  The first two leave a `length` of 0 where the type is not
the one they are for, and assert something of it afterwards; an assertion that fails is
`abort`.

The children of a dictionary are its keys and values in turn.  A dictionary with more than
500 of them is looked up in its hash table, which finds the same (`Libplist.DictRun`).
-/
import IDeviceStack.Libplist.Data

namespace IDeviceStack.Libplist

/-- `plist_get_node_type`. -/
def Plist.nodeType : Plist → PlistType
  | .scalar value _ => value.type
  | .array _ => .array
  | .dict _ => .dict

namespace Values

/-- Why a function does not return. -/
inductive Abort where
  /-- An assertion failed. -/
  | assertion
  /-- A `NULL` pointer was followed. -/
  | null
  deriving DecidableEq, Repr

/-- `plist_get_string_val`, into a variable that is `val`. -/
def plistGetStringVal (node : Plist) (val : Option (List UInt8)) : Except Abort (List UInt8) :=
  let (val, length) :=
    match node with
    | .scalar (.string strval) length => (some (cstr strval), length)
    | _ => (val, 0)
  match val with
  | none => .error .null
  | some val => if length = strlen val then .ok val else .error .assertion

/-- `plist_get_uint_val`, into a variable that is `val`. -/
def plistGetUintVal (node : Plist) (val : UInt64) : Except Abort UInt64 :=
  let (val, length) :=
    match node with
    | .scalar (.uint intval) length => (intval, length)
    | _ => (val, 0)
  if length = 8 ∨ length = 16 then .ok val else .error .assertion

/-- `plist_get_data_val`, into a variable that is `val`; the length is that of the result. -/
def plistGetDataVal (node : Plist) (val : Option (List UInt8)) : Option (List UInt8) :=
  match node with
  | .scalar (.data buff) length => some (buff.take length)
  | _ => val

/-- The loop of `plist_dict_get_item`. -/
def dictScan (key : List UInt8) : List Plist → Except Abort (Option Plist)
  | [] => .ok none
  | [.scalar (.key _) _] => .ok none
  | .scalar (.key strval) _ :: value :: rest =>
    if streq key strval then .ok (some value) else dictScan key rest
  | _ => .error .assertion

def plistDictGetItem (node : Plist) (key : List UInt8) : Except Abort (Option Plist) :=
  match node with
  | .dict children => dictScan key children
  | _ => .ok none

end Values

end IDeviceStack.Libplist
