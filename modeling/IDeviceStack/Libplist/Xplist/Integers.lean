/-
# `Libplist.Xplist.Integers` — the sign of an integer

A node of an integer has 64 bits and a length, and the length is all that tells a
negative number from one above `INT64_MAX`: it is 8 for the first and 16 for the
second.  `plist_from_xml` and both sides of the binary format keep to that.
`node_to_xml` does not look at the length and prints every integer as an unsigned
one, so a negative number becomes a large one.
-/
import IDeviceStack.Libplist.Bplist.Losses
import IDeviceStack.Libplist.Xplist.Roundtrip

namespace IDeviceStack.Libplist.Xplist

open Libplist.Bplist (Build Narrow plistToBin plistFromBin)

/-- The text of `t` is read as `t'`. -/
def RereadAs (conv : Conv) (pconv : PrintConv) (t t' : Plist) : Prop :=
  ∃ nodes root, treeAt nodes nodes.length root = some t' ∧
    ∀ fuel > (plistToXml pconv t).1.length,
      plistFromXml conv (plistToXml pconv t).1 (plistToXml pconv t).2 fuel = .ok (nodes, some root)

theorem RereadAs.unique {conv : Conv} {pconv : PrintConv} {t t1 t2 : Plist}
    (h1 : RereadAs conv pconv t t1) (h2 : RereadAs conv pconv t t2) : t1 = t2 := by
  obtain ⟨nodes1, root1, htree1, hread1⟩ := h1
  obtain ⟨nodes2, root2, htree2, hread2⟩ := h2
  have heq := (hread1 _ (Nat.lt_succ_self _)).symm.trans (hread2 _ (Nat.lt_succ_self _))
  cases heq
  exact Option.some.inj (htree1.symm.trans htree2)

theorem length_decimal {n : Nat} (hn : n < 2 ^ 64) : (decimal n).length ≤ 20 := by
  rw [decimal]
  split
  · simp
  · rw [List.length_map, List.length_reverse, Nat.digits_length_le_iff (by decide)]
    omega

theorem rereadAs_uint (conv : Conv) (pconv : PrintConv) (x : UInt64) (length : Nat) :
    RereadAs conv pconv (.scalar (.uint x) length)
      (.scalar (.uint x) (if x.toNat < 2 ^ 63 then 8 else 16)) := by
  have hsame : plistToXml pconv (.scalar (.uint x) length) =
      plistToXml pconv (.scalar (.uint x) (if x.toNat < 2 ^ 63 then 8 else 16)) := rfl
  have hepilog : xmlPlistEpilog.length = 9 := rfl
  have hopen : (openTag "integer").length = 9 := rfl
  have hclose : (closeTag "integer").length = 10 := rfl
  have hdecimal := length_decimal x.toNat_lt
  rw [RereadAs, hsame]
  refine ⟨_, 0, treeAt_whole rfl, plistFromXml_printed conv pconv rfl trivial ?_⟩
  simp only [plistToXml, nodeToXml, scalarToXml, List.length_append, xmlPlistProlog_length, hepilog,
    hopen, hclose, tabs, List.length_replicate, List.length_singleton]
  omega

/-- **Which integers keep their sign.**  A node of length 8 comes back from its text, and from
the text that is written after the binary format, exactly if it stands for a number that is not
negative. -/
theorem signed_survives_iff (conv : Conv) (pconv : PrintConv) (build : Build) (narrow : Narrow)
    (widen : Nat → Nat) (address : Nat) (x : UInt64) :
    (RereadAs conv pconv (.scalar (.uint x) 8) (.scalar (.uint x) 8) ↔ x.toNat < 2 ^ 63) ∧
      ((∃ bytes, plistToBin build narrow (.scalar address (.uint x) 8) = some bytes ∧
        ∀ base < 2 ^ 63, ∃ t calls, (∀ fuel > bytes.length,
            plistFromBin ⟨.machine, build, ⟨base, bytes⟩, widen⟩ fuel = .ok (some t, calls)) ∧
          RereadAs conv pconv t (.scalar (.uint x) 8)) ↔ x.toNat < 2 ^ 63) := by
  have htext : RereadAs conv pconv (.scalar (.uint x) 8) (.scalar (.uint x) 8) ↔
      x.toNat < 2 ^ 63 := by
    have hread := rereadAs_uint conv pconv x 8
    constructor
    · intro h
      by_contra hge
      rw [if_neg hge] at hread
      cases h.unique hread
    · intro hlt
      rwa [if_pos hlt] at hread
  refine ⟨htext, ?_⟩
  obtain ⟨bytes, hbytes, hread⟩ := Bplist.plistFromBin_scalar build narrow widen address
    (show Bplist.ScalarStored narrow widen (.uint x) 8 from .inl rfl) (by
      have hle := (Bplist.intBytes_spec x.toNat_lt).1
      rw [Bplist.writeScalar, if_neg (by decide), Bplist.writeInt, List.length_cons,
        Bplist.length_beTail _ (by omega)]
      omega)
  have hback : Bplist.readObject (.uint x) 8 = some (.scalar (.uint x) 8) := rfl
  rw [hback] at hread
  rw [← htext]
  constructor
  · rintro ⟨bytes', hbytes', hsame⟩
    obtain rfl := Option.some.inj (hbytes.symm.trans hbytes')
    obtain ⟨calls, hcalls⟩ := hread 0 (by omega)
    obtain ⟨t, calls', hcalls', htree⟩ := hsame 0 (by omega)
    have heq := (hcalls _ (Nat.lt_succ_self _)).symm.trans (hcalls' _ (Nat.lt_succ_self _))
    cases heq
    exact htree
  · intro h
    refine ⟨bytes, hbytes, fun base hbase => ?_⟩
    obtain ⟨calls, hcalls⟩ := hread base hbase
    exact ⟨_, calls, hcalls, h⟩

/-- Minus one, as `plist_from_xml` makes it, is printed as `18446744073709551615` and comes back
with length 16. -/
theorem minus_one_unsigned :
    integerData (lit "-1<") = .scalar (.uint 18446744073709551615) 8 ∧
      (∀ conv pconv, RereadAs conv pconv (.scalar (.uint 18446744073709551615) 8)
        (.scalar (.uint 18446744073709551615) 16)) ∧
      ¬ ∀ conv pconv (x : UInt64),
        RereadAs conv pconv (.scalar (.uint x) 8) (.scalar (.uint x) 8) := by
  have hlarge (conv : Conv) (pconv : PrintConv) : RereadAs conv pconv
      (.scalar (.uint 18446744073709551615) 8) (.scalar (.uint 18446744073709551615) 16) :=
    rereadAs_uint conv pconv 18446744073709551615 8
  refine ⟨by rfl, hlarge, fun h => ?_⟩
  have hsame := h ⟨fun _ => 0, fun _ => 0, fun _ => 0⟩ ⟨fun _ => [], fun _ => none⟩
    18446744073709551615
  cases hsame.unique (hlarge _ _)

end IDeviceStack.Libplist.Xplist
