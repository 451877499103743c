/-
# `Libplist.Hashtable` — `hashtable.c`

A table has 4096 buckets, chosen by the low twelve bits of the hash; a bucket is
a chain, with new entries at its head.  Keys are pointers to data the table does
not own.  The two functions a table is made with look at that data: `hash_func`
is passed here as its result on the key at hand, and `compare_func` as the
function of the other key.  Both may be undefined (`none`), as when a key has
been freed.
-/
import Mathlib.Logic.Function.Basic
import Mathlib.Data.List.Basic

namespace IDeviceStack.Libplist

variable {κ ν : Type}

/-- `hashentry_t`. -/
structure HashEntry (κ ν : Type) where
  key : κ
  value : ν
  deriving DecidableEq, Repr

/-- `hashtable_t`. -/
structure HashTable (κ ν : Type) where
  entries : Nat → List (HashEntry κ ν)
  count : Nat

def hashTableNew : HashTable κ ν := ⟨fun _ => [], 0⟩

/-- `hash & 0xFFF`. -/
def bucket (hash : BitVec 32) : Nat := hash.toNat % 4096

/-- The loop of `hash_table_insert`: the chain with the value replaced, if the key is there. -/
def chainReplace (cmp : κ → Option Bool) (value : ν) :
    List (HashEntry κ ν) → Option (Option (List (HashEntry κ ν)))
  | [] => some none
  | e :: es => do
      if ← cmp e.key then
        some (some ({ e with value := value } :: es))
      else
        let rest ← chainReplace cmp value es
        some (rest.map (e :: ·))

def hashTableInsert (ht : HashTable κ ν) (hash : BitVec 32) (cmp : κ → Option Bool) (key : κ)
    (value : ν) : Option (HashTable κ ν) := do
  let idx0 := bucket hash
  match ← chainReplace cmp value (ht.entries idx0) with
  | some es => some { ht with entries := Function.update ht.entries idx0 es }
  | none =>
    some
      { entries := Function.update ht.entries idx0 (⟨key, value⟩ :: ht.entries idx0)
        count := ht.count + 1 }

/-- The loop of `hash_table_lookup`. -/
def chainLookup (cmp : κ → Option Bool) : List (HashEntry κ ν) → Option (Option ν)
  | [] => some none
  | e :: es => do
      if ← cmp e.key then
        some (some e.value)
      else
        chainLookup cmp es

/-- `hash_table_lookup`; `none` inside for `NULL`. -/
def hashTableLookup (ht : HashTable κ ν) (hash : BitVec 32) (cmp : κ → Option Bool) :
    Option (Option ν) :=
  chainLookup cmp (ht.entries (bucket hash))

/-- The loop of `hash_table_remove`. -/
def chainRemove (cmp : κ → Option Bool) :
    List (HashEntry κ ν) → Option (List (HashEntry κ ν))
  | [] => some []
  | e :: es => do
      if ← cmp e.key then
        some es
      else
        let rest ← chainRemove cmp es
        some (e :: rest)

/-- `hash_table_remove`; it leaves `count` alone. -/
def hashTableRemove (ht : HashTable κ ν) (hash : BitVec 32) (cmp : κ → Option Bool) :
    Option (HashTable κ ν) := do
  let idx0 := bucket hash
  let es ← chainRemove cmp (ht.entries idx0)
  some { ht with entries := Function.update ht.entries idx0 es }

end IDeviceStack.Libplist
