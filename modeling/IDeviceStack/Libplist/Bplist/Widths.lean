/-
# `Libplist.Bplist.Widths` — which widths the shipped build reads

The format has offsets and references of any width from 1 to 8.  What is read must
not depend on the width that was chosen for it.  In the build of the Visual Studio
projects that is so for the widths 1, 2, 4 and 8.  A number of three bytes comes out
with its bytes in another order, as `byte_convert` is empty there; and of five, six
or seven bytes only the first is read, in every build.
-/
import IDeviceStack.Libplist.Bplist.Table

namespace IDeviceStack.Libplist.Bplist

open Lib

/-- `x` comes out right in `n` bytes. -/
def ReadsBack (n x : Nat) : Prop :=
  n = 1 ∨ n = 2 ∨ n = 4 ∨ n = 8 ∨ n = 3 ∧ (∃ b, b < 256 ∧ x = 65792 * b) ∨
    (n = 5 ∨ n = 6 ∨ n = 7) ∧ x = 0

theorem beBytes_succ_eq_cons (n x : Nat) :
    beBytes (n + 1) x = UInt8.ofNat (x / 256 ^ n) :: beBytes n x := by
  induction n generalizing x with
  | zero => simp [beBytes]
  | succ n ih =>
    rw [beBytes, ih, Nat.div_div_eq_div_mul, ← pow_succ', List.cons_append]
    rfl

theorem readable_three {x : Nat} (hx : x < 2 ^ 24) :
    Readable .shipped 3 x ↔ ∃ b, b < 256 ∧ x = 65792 * b := by
  have hbytes : beBytes 3 x =
      [UInt8.ofNat (x / 256 / 256), UInt8.ofNat (x / 256), UInt8.ofNat x] := rfl
  rw [Readable, hbytes, uintToHost_three_shipped, UInt8.toNat_ofNat', UInt8.toNat_ofNat',
    UInt8.toNat_ofNat']
  constructor
  · intro h
    exact ⟨x / 256 % 256, by omega, by omega⟩
  · rintro ⟨b, hb, rfl⟩
    have h1 : 65792 * b / 256 = 257 * b := by omega
    have h2 : 257 * b / 256 = b := by omega
    rw [h1, h2]
    omega

theorem readable_first {n x : Nat} (hn : n + 1 = 5 ∨ n + 1 = 6 ∨ n + 1 = 7)
    (hx : x < 256 ^ (n + 1)) : Readable .shipped (n + 1) x ↔ x = 0 := by
  rw [pow_succ] at hx
  have htop : x / 256 ^ n < 256 := Nat.div_lt_of_lt_mul hx
  rw [Readable, beBytes_succ_eq_cons, uintToHost_other .shipped _ _ (by omega) (by omega) (by omega)
    (by omega), UInt8.toNat_ofNat', Nat.mod_eq_of_lt htop]
  constructor
  · intro h
    by_contra hne
    have hlt : x / 256 ^ n < x :=
      Nat.div_lt_self (by omega) (Nat.one_lt_pow (by omega) (by omega))
    omega
  · rintro rfl
    exact Nat.zero_div _

theorem readable_shipped_iff {n x : Nat} (h1 : 1 ≤ n) (h8 : n ≤ 8) (hx : x < 2 ^ (8 * n)) :
    Readable .shipped n x ↔ ReadsBack n x := by
  have hx : x < 256 ^ n := by rwa [pow_mul] at hx
  have hdirect (h : n = 1 ∨ n = 2 ∨ n = 4 ∨ n = 8) : Readable .shipped n x := by
    rw [Readable, uintToHost_direct .shipped (length_beBytes n x) h, beVal_beBytes hx]
  rcases (by omega : n = 1 ∨ n = 2 ∨ n = 3 ∨ n = 4 ∨ n = 5 ∨ n = 6 ∨ n = 7 ∨ n = 8) with
    rfl | rfl | rfl | rfl | rfl | rfl | rfl | rfl
  · exact iff_of_true (hdirect (by omega)) (.inl rfl)
  · exact iff_of_true (hdirect (by omega)) (.inr (.inl rfl))
  · rw [readable_three hx]
    simp [ReadsBack]
  · exact iff_of_true (hdirect (by omega)) (.inr (.inr (.inl rfl)))
  · rw [readable_first (by omega) hx]
    simp [ReadsBack]
  · rw [readable_first (by omega) hx]
    simp [ReadsBack]
  · rw [readable_first (by omega) hx]
    simp [ReadsBack]
  · exact iff_of_true (hdirect (by omega)) (.inr (.inr (.inr (.inl rfl))))

/-- The table read without any file: its graph, followed from the root. -/
def walkTable (entries : List Entry) (root fuel : Nat) : Except Stop (Option Plist × List Call) := do
  let (plist, st) ← walkAt (tableGraph entries) fuel [] root ⟨0, [], []⟩
  .ok (plist, st.calls)

/-- The widths are large enough for the numbers. -/
structure Fits (narrow : Narrow) (offsetSize refSize : Nat) (entries : List Entry) : Prop where
  offsetWidth : 1 ≤ offsetSize ∧ offsetSize ≤ 8
  refWidth : 1 ≤ refSize ∧ refSize ≤ 8
  offsets : ∀ x ∈ tableOffsets .shipped narrow refSize entries, x < 2 ^ (8 * offsetSize)
  refs : ∀ e ∈ entries, ∀ r ∈ e.refs, r < 2 ^ (8 * refSize)

/-- **Which widths the shipped build reads.**  A number is read back from `n` bytes exactly if
`n` is 1, 2, 4 or 8, or it is one of the few that survive the path of the other widths.  And if
all offsets and references of a file are such numbers, what is read is the table that was written,
whatever the widths. -/
theorem shipped_widths (narrow : Narrow) (widen : Nat → Nat) (offsetSize refSize : Nat)
    (entries : List Entry) (root base fuel : Nat) :
    (∀ n x, 1 ≤ n → n ≤ 8 → x < 2 ^ (8 * n) →
      (uintToHost .shipped n (beBytes n x) = x ↔ ReadsBack n x)) ∧
    (Fits narrow offsetSize refSize entries → root < entries.length →
      (∀ e ∈ entries, e.Ok narrow widen entries.length) →
      (encodeTable .shipped narrow offsetSize refSize entries root).length < 2 ^ 32 →
      base < 2 ^ 63 → (∀ x ∈ tableOffsets .shipped narrow refSize entries, ReadsBack offsetSize x) →
      (∀ e ∈ entries, ∀ r ∈ e.refs, ReadsBack refSize r) → plistFromBin ⟨.machine, .shipped,
          ⟨base, encodeTable .shipped narrow offsetSize refSize entries root⟩, widen⟩ fuel =
        walkTable entries root fuel) := by
  constructor
  · intro n x h1 h8 hx
    exact readable_shipped_iff h1 h8 hx
  · intro hfits hroot hok hlen hbase hoffs hrefs
    obtain ⟨ho1, ho8⟩ := hfits.offsetWidth
    obtain ⟨hr1, hr8⟩ := hfits.refWidth
    obtain ⟨l, hopen, hgraph⟩ := openLayout_encodeTable ⟨ho1, by omega⟩
      ⟨hr1, by omega⟩ hroot hlen (fun e he => (hok e he).stored)
      (fun x hx => (readable_shipped_iff ho1 ho8 (hfits.offsets x hx)).mpr (hoffs x hx))
      (fun e he r hr => (readable_shipped_iff hr1 hr8 (hfits.refs e he r hr)).mpr (hrefs e he r hr))
    rw [plistFromBin_eq_walkBin hlen (.inl rfl) hbase, walkBin, hopen, walkTable,
      ← foundGraph_eq hok, ← hgraph]

/-- A table of one object, `true`. -/
def onlyTrue : List Entry := [.scalar (.boolean 1) 1]

theorem shipped_widths_onlyTrue :
    uintToHost .shipped 2 (beBytes 2 300) = 300 ∧
      plistFromBin ⟨.machine, .shipped, ⟨4096, encodeTable .shipped (fun _ => none) 8 1 onlyTrue 0⟩,
        id⟩ 1 = walkTable onlyTrue 0 1 := by
  have hwidths := shipped_widths (fun _ => none) id 8 1 onlyTrue 0 4096 1
  refine ⟨(hwidths.1 2 300 (by decide) (by decide) (by decide)).mpr (.inr (.inl rfl)), ?_⟩
  refine hwidths.2 ⟨by decide, by decide, ?_, ?_⟩ (by decide) ?_ (by decide) (by decide)
    (fun _ _ => .inr (.inr (.inr (.inl rfl)))) (fun _ _ _ _ => .inl rfl)
  · decide
  · simp [onlyTrue, Entry.refs]
  · simp [onlyTrue, Entry.Ok, ScalarLegible, ScalarOk]

/-- One as three bytes is read as 16777216, as five bytes it is read as 0, and a file with offsets
of three bytes is not read at all. -/
theorem shipped_widths_fail :
    uintToHost .shipped 3 (beBytes 3 1) = 16777216 ∧ uintToHost .shipped 5 (beBytes 5 1) = 0 ∧
      (¬ ∀ n x, 1 ≤ n → n ≤ 8 → x < 2 ^ (8 * n) → uintToHost .shipped n (beBytes n x) = x) ∧
      (plistFromBin ⟨.machine, .shipped, ⟨4096, encodeTable .shipped (fun _ => none) 3 1 onlyTrue 0⟩,
        id⟩ 2).map (·.1.isSome) = .ok false ∧
      (plistFromBin ⟨.machine, .shipped, ⟨4096, encodeTable .shipped (fun _ => none) 1 1 onlyTrue 0⟩,
        id⟩ 2).map (·.1.isSome) = .ok true := by
  refine ⟨by decide, by decide, fun h => ?_, by rfl, by rfl⟩
  have h3 := h 3 1 (by decide) (by decide) (by decide)
  revert h3
  decide

end IDeviceStack.Libplist.Bplist
