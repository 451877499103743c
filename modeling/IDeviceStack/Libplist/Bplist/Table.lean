/-
# `Libplist.Bplist.Table` — a file made of a table of objects

The format seen from the writer's side: a table of objects (`Entry`) is laid out
as a file with offsets of one width and references of another, both big-endian.
`encodeTable` takes the widths as they come; `plist_to_bin` chooses them, and other
writers choose others.

What is read back is the graph of the table (`openLayout_encodeTable`), for every
build and all widths, as long as `UINT_TO_HOST` reads every offset and every
reference as it was written.
-/
import IDeviceStack.Libplist.Bplist.Bounds
import IDeviceStack.Libplist.Bplist.Write

namespace IDeviceStack.Libplist.Bplist

open Lib List

/-! ## Bytes at a place -/

/-- The bytes `bs` stand at offset `o`. -/
def Occurs (bytes : List UInt8) (o : Nat) (bs : List UInt8) : Prop :=
  ∃ pre post, bytes = pre ++ (bs ++ post) ∧ pre.length = o

namespace Occurs

variable {bytes : List UInt8} {o : Nat}

theorem left {a b : List UInt8} (h : Occurs bytes o (a ++ b)) : Occurs bytes o a := by
  obtain ⟨pre, post, rfl, rfl⟩ := h
  exact ⟨pre, b ++ post, by simp, rfl⟩

theorem right {a b : List UInt8} (h : Occurs bytes o (a ++ b)) : Occurs bytes (o + a.length) b := by
  obtain ⟨pre, post, rfl, rfl⟩ := h
  exact ⟨pre ++ a, post, by simp, by simp⟩

variable {bs : List UInt8}

theorem tail {b : UInt8} (h : Occurs bytes o (b :: bs)) :
    Occurs bytes (o + 1) bs := h.right (a := [b])

theorem slice_eq (h : Occurs bytes o bs) : slice bytes o bs.length = bs := by
  obtain ⟨pre, post, rfl, rfl⟩ := h
  simp [slice]

theorem getD_eq {b : UInt8} (h : Occurs bytes o (b :: bs)) : bytes.getD o 0 = b := by
  obtain ⟨pre, post, rfl, rfl⟩ := h
  simp [getD_eq_getElem?_getD]

theorem flatMap {α : Type} {f : α → List UInt8} {w : Nat} (hw : ∀ x, (f x).length = w) {xs : List α}
    (h : Occurs bytes o (xs.flatMap f)) {j : Nat} {x : α} (hx : xs[j]? = some x) :
    Occurs bytes (o + j * w) (f x) := by
  induction xs generalizing o j with
  | nil => simp at hx
  | cons y xs ih =>
    rw [flatMap_cons] at h
    cases j with
    | zero =>
      obtain rfl : y = x := by simpa using hx
      simpa using h.left
    | succ j =>
      have htail := ih h.right (j := j) (by simpa using hx)
      rw [hw y] at htail
      rw [Nat.succ_mul, show o + (j * w + w) = o + w + j * w by omega]
      exact htail

end Occurs

theorem length_flatMap_of_const {α : Type} {f : α → List UInt8} {w : Nat}
    (hw : ∀ x, (f x).length = w) (xs : List α) : (xs.flatMap f).length = xs.length * w := by
  induction xs with
  | nil => simp
  | cons x xs ih => rw [flatMap_cons, length_append, hw, ih, length_cons,
      Nat.succ_mul, Nat.add_comm]

/-! ## Integers -/

theorem uintToHost_take (build : Build) (n : Nat) (bs : List UInt8) :
    uintToHost build n (bs.take (uintBytes n)) = uintToHost build n bs := by
  simp only [uintToHost, uintBytes]
  split
  · simp [take_take]
  · split
    · simp [take_take]
    · split
      · simp [uint24FromBe, take_take]
      · split
        · simp [take_take]
        · simp [take_take]

variable {o n : Nat}

theorem Layout.uint_of_occurs (l : Layout) {bs : List UInt8} (h : Occurs l.bytes o bs)
    (hlen : bs.length = n) (hn : 1 ≤ n) (hn' : n < 256) : l.uint o n = uintToHost l.build n bs := by
  have hle := uintBytes_mod_le hn
  rw [Nat.mod_eq_of_lt hn'] at hle
  have htake : slice l.bytes o (uintBytes n) = bs.take (uintBytes n) := by
    obtain ⟨pre, post, hbytes, rfl⟩ := h
    rw [slice, hbytes, drop_left, take_append_of_le_length (by omega)]
  rw [Layout.uint, Nat.mod_eq_of_lt hn', htake, uintToHost_take]

variable {x : Nat}

theorem beTail_eq (hx : x < 2 ^ 64) (hn : n ≤ 8) : beTail x n = beBytes n x := by
  rw [beTail, leBytes_bswap64 hx, drop_beBytes hn]

theorem getNeededBytes_cases (hx : x < 2 ^ 64) :
    getNeededBytes x = 1 ∧ x < 2 ^ 8 ∨ getNeededBytes x = 2 ∧ x < 2 ^ 16 ∨
      getNeededBytes x = 3 ∧ x < 2 ^ 24 ∨ getNeededBytes x = 4 ∧ x < 2 ^ 32 ∨
      getNeededBytes x = 8 ∧ x < 2 ^ 64 := by
  unfold getNeededBytes
  split
  · exact .inl ⟨rfl, ‹_›⟩
  · split
    · exact .inr (.inl ⟨rfl, ‹_›⟩)
    · split
      · exact .inr (.inr (.inl ⟨rfl, ‹_›⟩))
      · split
        · exact .inr (.inr (.inr (.inl ⟨rfl, ‹_›⟩)))
        · exact .inr (.inr (.inr (.inr ⟨rfl, hx⟩)))

theorem intBytes_spec (hx : x < 2 ^ 64) :
    (intBytes x = 1 ∨ intBytes x = 2 ∨ intBytes x = 4 ∨ intBytes x = 8) ∧
      x < 256 ^ intBytes x := by
  rcases getNeededBytes_cases hx with ⟨h, hlt⟩ | ⟨h, hlt⟩ | ⟨h, hlt⟩ | ⟨h, hlt⟩ | ⟨h, hlt⟩ <;>
    simp only [intBytes, h] <;> norm_num <;> omega

theorem shiftLeft_log2 (hn : n = 1 ∨ n = 2 ∨ n = 4 ∨ n = 8) : 1 <<< log2 n = n ∧ log2 n < 16 := by
  rcases hn with rfl | rfl | rfl | rfl <;> decide

theorem Layout.uint_intBytes (l : Layout) (hx : x < 2 ^ 64)
    (h : Occurs l.bytes o (beTail x (intBytes x))) : l.uint o (intBytes x) = x := by
  obtain ⟨hwidth, hfit⟩ := intBytes_spec hx
  have hle : 1 ≤ intBytes x ∧ intBytes x ≤ 8 := by omega
  rw [beTail_eq hx hle.2] at h
  rw [l.uint_of_occurs h (length_beBytes _ _) hle.1 (by omega),
    uintToHost_direct l.build (length_beBytes _ _) hwidth, beVal_beBytes hfit]

theorem marker_halves : ∀ m < 16, ∀ k < 16,
    (UInt8.ofNat (m * 16 ||| k)).toNat &&& 0xF0 = m * 16 ∧
      (UInt8.ofNat (m * 16 ||| k)).toNat &&& 0x0F = k := by
  decide

/-! ## Headers -/

section Headers

variable (l : Layout) {o : Nat}

theorem Layout.header_short {m k : Nat} (hm : m < 16) (hk : k < 16) {bs : List UInt8}
    (hno : hasSizeNode (m * 16) = false ∨ k < 15)
    (h : Occurs l.bytes o (UInt8.ofNat (m * 16 ||| k) :: bs)) :
    l.header o = some (m * 16, k, o + 1) := by
  obtain ⟨hhi, hlo⟩ := marker_halves m hm k hk
  simp only [Layout.header, h.getD_eq, hhi, hlo]
  rw [if_neg]
  rintro ⟨h15, hsize⟩
  rcases hno with hno | hno
  · rw [hno] at hsize
    cases hsize
  · omega

theorem Layout.header_marker {m size : Nat} (hm : m < 16) (hmark : hasSizeNode (m * 16) = true)
    (hsize : size < 2 ^ 64) {bs : List UInt8}
    (h : Occurs l.bytes o (writeMarker (m * 16) size ++ bs))
    (hend : o + (writeMarker (m * 16) size).length ≤ l.offsetTable) :
    l.header o = some (m * 16, size, o + (writeMarker (m * 16) size).length) := by
  by_cases hshort : size < 15
  · have hlen : (writeMarker (m * 16) size).length = 1 := by
      simp [writeMarker, show ¬ 15 ≤ size by omega]
    rw [hlen]
    rw [writeMarker, if_pos hshort] at h
    exact l.header_short hm (by omega) (.inr hshort) h
  · obtain ⟨hwidth, -⟩ := intBytes_spec hsize
    obtain ⟨hshift, hlog⟩ := shiftLeft_log2 hwidth
    have htail : (beTail size (intBytes size)).length = intBytes size := by
      rw [beTail_eq hsize (by omega), length_beBytes]
    have hlen : (writeMarker (m * 16) size).length = 2 + intBytes size := by
      simp [writeMarker, show 15 ≤ size by omega, writeInt, htail]
      omega
    obtain ⟨hhi, hlo⟩ := marker_halves m hm 15 (by omega)
    obtain ⟨hhi', hlo'⟩ := marker_halves 1 (by omega) (log2 (intBytes size)) hlog
    rw [writeMarker, if_neg hshort, if_pos (by omega), writeInt] at h
    have hmarker := h.left.getD_eq
    have hnext := h.left.tail.getD_eq
    rw [hlen] at hend ⊢
    simp only [Layout.header, hmarker, hhi, hlo, hnext]
    rw [if_pos ⟨trivial, hmark⟩]
    have htype : (UInt8.ofNat (BPLIST_UINT ||| log2 (intBytes size))).toNat &&& 0xF0 =
        BPLIST_UINT := hhi'
    have hfill : (UInt8.ofNat (BPLIST_UINT ||| log2 (intBytes size))).toNat &&& 0x0F =
        log2 (intBytes size) := hlo'
    rw [if_neg (not_not.mpr htype), hfill, hshift, if_neg (by omega)]
    have hval := l.uint_intBytes hsize h.left.tail.tail
    rw [show o + 1 + 1 = o + 2 by omega] at hval
    rw [hval, show o + 2 + intBytes size = o + (2 + intBytes size) by omega]

end Headers

/-! ## Scalars -/

/-- Scalars that come back as they were: a boolean is 0 or 1, strings are valid UTF-8, and every
length is the one that the reader gives.  Reals are left out. -/
def ScalarOk : Scalar → Nat → Prop
  | .boolean b, n => (b = 0 ∨ b = 1) ∧ n = 1
  | .uint _, n => n = 8
  | .real _, _ => False
  | .string s, n => NulFree s ∧ ValidUtf8 s ∧ n = s.length
  | .date _, n => n = 8
  | .data s, n => n = s.length
  | .key s, n => NulFree s ∧ ValidUtf8 s ∧ n = s.length
  | .uid x, n => x.toNat < 2 ^ 32 ∧ n = 8

/-- Scalars that are read at all.  A `float` that stands for a `double` has to be that number. -/
def ScalarLegible (narrow : Narrow) (widen : Nat → Nat) : Scalar → Nat → Prop
  | .uint _, n => n = 8 ∨ n = 16
  | .real x, n => n = 8 ∧ ∀ f, narrow x.toNat = some f → f < 2 ^ 32 ∧ widen f = x.toNat
  | v, n => ScalarOk v n

variable {narrow : Narrow} {widen : Nat → Nat} {v : Scalar}

theorem ScalarOk.legible (h : ScalarOk v n) : ScalarLegible narrow widen v n := by
  cases v with
  | uint x => exact .inl h
  | real x => exact h.elim
  | _ => exact h

/-- What is read for a scalar.  A key is a string until a dictionary makes it a key, and of an
integer of 16 bytes the reader takes the first byte, which is 0. -/
def readScalar : Scalar → Nat → Plist
  | .key s, n => .scalar (.string s) n
  | .uint x, n => .scalar (.uint (if n = 16 then 0 else x)) n
  | v, n => .scalar v n

/-- Scalars that are written and looked up: a string is any string without NUL. -/
def ScalarStored (narrow : Narrow) (widen : Nat → Nat) : Scalar → Nat → Prop
  | .string s, n => NulFree s ∧ n = s.length
  | .key s, n => NulFree s ∧ n = s.length
  | v, n => ScalarLegible narrow widen v n

theorem ScalarLegible.stored (h : ScalarLegible narrow widen v n) :
    ScalarStored narrow widen v n := by
  cases v with
  | string s => exact ⟨h.1, h.2.2⟩
  | key s => exact ⟨h.1, h.2.2⟩
  | _ => exact h

theorem ScalarOk.stored (narrow : Narrow) (widen : Nat → Nat) (h : ScalarOk v n) :
    ScalarStored narrow widen v n := h.legible.stored

/-- What is read for code units.  None at all are no string. -/
def readUnicode (us : List Nat) : Option Plist :=
  if us = [] then none else some (.scalar (.string (utf16ToUtf8 us)) (utf16ToUtf8 us).length)

/-- What is read for a string. -/
def readStrval (s : List UInt8) : Option Plist :=
  if isAsciiString s s.length then some (.scalar (.string s) s.length)
  else readUnicode (utf8ToUtf16 s)

/-- What is read for a scalar, if anything is. -/
def readObject : Scalar → Nat → Option Plist
  | .string s, _ => readStrval s
  | .key s, _ => readStrval s
  | v, n => some (readScalar v n)

/-- A string that the writer takes for ASCII, or that is valid UTF-8. -/
def Survives (s : List UInt8) : Prop := isAsciiString s s.length ∨ ValidUtf8 s

/-- **Which strings come back.** -/
theorem readStrval_eq_some_iff (s : List UInt8) :
    readStrval s = some (.scalar (.string s) s.length) ↔ Survives s := by
  rw [readStrval, readUnicode, Survives]
  split_ifs with hascii hnone
  · exact iff_of_true rfl (.inl hascii)
  · refine iff_of_false (by simp) (not_or.mpr ⟨hascii, fun hvalid => hascii ?_⟩)
    have hback := utf16ToUtf8_utf8ToUtf16 hvalid
    rw [hnone] at hback
    rw [← hback]
    rfl
  · rw [Option.some.injEq, Plist.scalar.injEq, Scalar.string.injEq]
    refine ⟨fun h => .inr (validUtf8_of_utf16 h.1), ?_⟩
    rintro (h | h)
    · exact absurd h hascii
    · rw [utf16ToUtf8_utf8ToUtf16 h]
      exact ⟨rfl, rfl⟩

/-- A string of which nothing is left: it starts with a byte that starts no sequence, or whose
sequence breaks off at once. -/
def Lost (s : List UInt8) : Prop :=
  ¬ isAsciiString s s.length ∧
    ∃ b bs, s = b :: bs ∧ 0x80 ≤ b.toNat ∧ (b.toNat < 0xC0 ∨ (bs.getD 0 0).toNat < 0x80)

/-- **Which strings are not read at all.** -/
theorem readStrval_eq_none_iff (s : List UInt8) : readStrval s = none ↔ Lost s := by
  rw [readStrval, readUnicode, Lost]
  cases s with
  | nil => exact iff_of_false (by simp [isAsciiString]) (by simp)
  | cons b bs =>
    have hnil := utf8ToUtf16_eq_nil_iff b bs
    split_ifs with hascii hnone
    · exact iff_of_false (by simp) fun h => h.1 hascii
    · exact iff_of_true rfl ⟨hascii, b, bs, rfl, hnil.mp hnone⟩
    · refine iff_of_false (by simp) ?_
      rintro ⟨-, b', bs', heq, h⟩
      cases heq
      exact hnone (hnil.mpr h)

theorem readStrval_cases (s : List UInt8) :
    readStrval s = none ∨ ∃ s', readStrval s = some (.scalar (.string s') s'.length) := by
  rw [readStrval, readUnicode]
  split_ifs
  · exact .inr ⟨s, rfl⟩
  · exact .inl rfl
  · exact .inr ⟨_, rfl⟩

theorem ScalarLegible.readObject_eq (h : ScalarLegible narrow widen v n) :
    readObject v n = some (readScalar v n) := by
  cases v with
  | string s =>
    obtain ⟨-, hvalid, rfl⟩ := h
    exact (readStrval_eq_some_iff s).mpr (.inr hvalid)
  | key s =>
    obtain ⟨-, hvalid, rfl⟩ := h
    exact (readStrval_eq_some_iff s).mpr (.inr hvalid)
  | _ => rfl

section Scalars

variable (l : Layout) {o : Nat}

theorem Layout.object_leaf {type size body : Nat} (h : l.header o = some (type, size, body))
    (hset : ¬(type = BPLIST_SET ∨ type = BPLIST_ARRAY)) (hdict : type ≠ BPLIST_DICT) :
    l.object o = .leaf (l.leaf type size body) := by
  simp only [Layout.object, h]
  rw [if_neg hset, if_neg hdict]

variable {x : Nat}

theorem Layout.object_writeInt (hx : x < 2 ^ 64) (h : Occurs l.bytes o (writeInt x))
    (hend : o + (writeInt x).length ≤ l.offsetTable) :
    l.object o = .leaf (some (.scalar (.uint (UInt64.ofNat x)) 8)) := by
  obtain ⟨hwidth, -⟩ := intBytes_spec hx
  obtain ⟨hshift, hlog⟩ := shiftLeft_log2 hwidth
  have hlen : (writeInt x).length = 1 + intBytes x := by
    rw [writeInt, length_cons, beTail_eq hx (by omega), length_beBytes, Nat.add_comm]
  have hheader : l.header o = some (BPLIST_UINT, log2 (intBytes x), o + 1) :=
    l.header_short (m := 1) (by omega) hlog (.inl rfl) h
  rw [l.object_leaf hheader (by decide) (by decide), Layout.leaf, if_neg (by decide), if_pos rfl,
    hshift, if_neg (by omega)]
  simp only [Nat.mod_eq_of_lt (show intBytes x < 256 by omega), l.uint_intBytes hx h.tail]
  rw [if_pos (by omega)]

theorem Layout.realBits_double (hx : x < 2 ^ 64)
    (h : Occurs l.bytes o (leBytes 8 (if l.build.littleEndian then bswap64 x else x))) :
    l.realBits o 3 = some x := by
  have hslice := h.slice_eq
  rw [length_leBytes] at hslice
  simp only [Layout.realBits, hslice]
  by_cases hbuild : l.build.littleEndian = true
  · have hval : bswap64 (leVal (beBytes 8 x)) = x := by
      rw [bswap64_leVal (length_beBytes 8 x), beVal_beBytes (by omega)]
    simp [hbuild, leBytes_bswap64 hx, hval]
  · simp [hbuild, leVal_leBytes (show x < 256 ^ 8 by omega)]

theorem Layout.realBits_float {f : Nat} (hf : f < 2 ^ 32)
    (h : Occurs l.bytes o (leBytes 4 (if l.build.littleEndian then bswap32 f else f))) :
    l.realBits o 2 = some (l.widen f) := by
  have hslice := h.slice_eq
  rw [length_leBytes] at hslice
  simp only [Layout.realBits, hslice]
  by_cases hbuild : l.build.littleEndian = true
  · have hval : bswap32 (leVal (beBytes 4 f)) = f := by
      rw [bswap32_leVal (length_beBytes 4 f), beVal_beBytes (by omega)]
    simp [hbuild, leBytes_bswap32 hf, hval]
  · simp [hbuild, leVal_leBytes (show f < 256 ^ 4 by omega)]

theorem Layout.object_writeDate (hx : x < 2 ^ 64) (h : Occurs l.bytes o (writeDate l.build x))
    (hend : o + (writeDate l.build x).length ≤ l.offsetTable) :
    l.object o = .leaf (some (.scalar (.date (UInt64.ofNat x)) 8)) := by
  have hheader : l.header o = some (BPLIST_DATE, 3, o + 1) :=
    l.header_short (m := 3) (by omega) (by omega) (.inl rfl) h
  rw [writeDate, length_cons, length_leBytes] at hend
  rw [l.object_leaf hheader (by decide) (by decide), Layout.leaf, if_neg (by decide),
    if_neg (by decide), if_neg (by decide), if_pos rfl, if_neg (by decide),
    l.realBits_double hx h.tail, if_neg (by simp; omega)]
  rfl

theorem Layout.object_writeUint (h : Occurs l.bytes o (writeUint x))
    (hend : o + (writeUint x).length ≤ l.offsetTable) :
    l.object o = .leaf (some (.scalar (.uint 0) 16)) := by
  have hheader : l.header o = some (BPLIST_UINT, 4, o + 1) :=
    l.header_short (m := 1) (by omega) (by omega) (.inl rfl) h
  have hlen : (writeUint x).length = 17 := by simp [writeUint]
  have hval : l.uint (o + 1) 16 = 0 := by
    rw [l.uint_of_occurs h.tail (by simp) (by omega) (by omega)]
    exact uintToHost_other l.build 0 _ (by omega) (by omega) (by omega) (by omega)
  rw [l.object_leaf hheader (by decide) (by decide), Layout.leaf, if_neg (by decide), if_pos rfl,
    if_neg (by simp; omega)]
  simp [hval]

theorem Layout.object_writeReal (narrow : Narrow) (hx : x < 2 ^ 64)
    (hfloat : ∀ f, narrow x = some f → f < 2 ^ 32 ∧ l.widen f = x)
    (h : Occurs l.bytes o (writeReal l.build narrow x))
    (hend : o + (writeReal l.build narrow x).length ≤ l.offsetTable) :
    l.object o = .leaf (some (.scalar (.real (UInt64.ofNat x)) 8)) := by
  cases hnarrow : narrow x with
  | none =>
    simp only [writeReal, hnarrow] at h hend
    have hheader : l.header o = some (BPLIST_REAL, 3, o + 1) :=
      l.header_short (m := 2) (by omega) (by omega) (.inl rfl) h
    rw [length_cons, length_leBytes] at hend
    rw [l.object_leaf hheader (by decide) (by decide), Layout.leaf, if_neg (by decide),
      if_neg (by decide), if_pos rfl, if_neg (by simp; omega), l.realBits_double hx h.tail]
    rfl
  | some f =>
    obtain ⟨hf, hwiden⟩ := hfloat f hnarrow
    simp only [writeReal, hnarrow] at h hend
    have hheader : l.header o = some (BPLIST_REAL, 2, o + 1) :=
      l.header_short (m := 2) (by omega) (by omega) (.inl rfl) h
    rw [length_cons, length_leBytes] at hend
    rw [l.object_leaf hheader (by decide) (by decide), Layout.leaf, if_neg (by decide),
      if_neg (by decide), if_pos rfl, if_neg (by simp; omega), l.realBits_float hf h.tail, hwiden]
    rfl

variable {s : List UInt8}

theorem Layout.object_writeData (h : Occurs l.bytes o (writeData s s.length))
    (hs : s.length < 2 ^ 64) (hend : o + (writeData s s.length).length ≤ l.offsetTable) :
    l.object o = .leaf (some (.scalar (.data s) s.length)) := by
  have hmark : writeData s s.length = writeMarker (4 * 16) s.length ++ s := by
    rw [writeData, writeRawData, if_neg (by decide), take_length]
    rfl
  rw [hmark] at h hend
  rw [length_append] at hend
  have hheader : l.header o =
      some (BPLIST_DATA, s.length, o + (writeMarker (4 * 16) s.length).length) :=
    l.header_marker (m := 4) (by omega) rfl hs h (by omega)
  rw [l.object_leaf hheader (by decide) (by decide), Layout.leaf, if_neg (by decide),
    if_neg (by decide), if_neg (by decide), if_neg (by decide), if_pos rfl, if_neg (by omega),
    h.right.slice_eq]

theorem Layout.object_writeString (hnul : NulFree s) (h : Occurs l.bytes o (writeString s))
    (hs : s.length < 2 ^ 64) (hend : o + (writeString s).length ≤ l.offsetTable) :
    l.object o = .leaf (some (.scalar (.string s) s.length)) := by
  have hstrlen : strlen s = s.length := by rw [strlen, cstr_of_nulFree hnul]
  have hmark : writeString s = writeMarker (5 * 16) s.length ++ s := by
    rw [writeString, writeRawData, if_neg (by decide), hstrlen, take_length]
    rfl
  rw [hmark] at h hend
  rw [length_append] at hend
  have hheader : l.header o =
      some (BPLIST_STRING, s.length, o + (writeMarker (5 * 16) s.length).length) :=
    l.header_marker (m := 5) (by omega) rfl hs h (by omega)
  rw [l.object_leaf hheader (by decide) (by decide), Layout.leaf, if_neg (by decide),
    if_neg (by decide), if_neg (by decide), if_neg (by decide), if_neg (by decide), if_pos rfl,
    if_neg (by omega), h.right.slice_eq, hstrlen]

theorem Layout.units_of_occurs {us : List Nat} (hus : ∀ u ∈ us, u < 2 ^ 16)
    (h : Occurs l.bytes o (us.flatMap fun u => leBytes 2 (bswap16 u))) :
    l.units o us.length = us := by
  apply ext_getElem (by simp [Layout.units])
  intro j hj hj'
  have hocc := h.flatMap (w := 2) (fun u => length_leBytes 2 _) (List.getElem?_eq_getElem hj')
  have hslice := hocc.slice_eq
  rw [length_leBytes, leBytes_bswap16 (hus _ (getElem_mem hj'))] at hslice
  simp only [Layout.units, getElem_map, getElem_range]
  rw [Nat.mul_comm 2 j, hslice, bswap16_leVal (length_beBytes 2 _), beVal_beBytes]
  exact hus _ (getElem_mem hj')

theorem Layout.object_writeUnicode {us : List Nat} (hlt : ∀ u ∈ us, u < 2 ^ 16)
    (h : Occurs l.bytes o (writeUnicode us)) (hs : us.length < 2 ^ 64)
    (hend : o + (writeUnicode us).length ≤ l.offsetTable) :
    l.object o = .leaf (readUnicode us) := by
  have hbytes : (us.flatMap fun u => leBytes 2 (bswap16 u)).length = us.length * 2 :=
    length_flatMap_of_const (fun u => length_leBytes 2 _) us
  have hmark : writeUnicode us =
      writeMarker (6 * 16) us.length ++ us.flatMap fun u => leBytes 2 (bswap16 u) := by
    rw [writeUnicode, writeRawData, if_pos rfl, Nat.shiftLeft_eq, pow_one,
      take_of_length_le (by omega)]
    rfl
  rw [hmark] at h hend
  rw [length_append, hbytes] at hend
  have hheader : l.header o =
      some (BPLIST_UNICODE, us.length, o + (writeMarker (6 * 16) us.length).length) :=
    l.header_marker (m := 6) (by omega) rfl hs h (by omega)
  rw [l.object_leaf hheader (by decide) (by decide), Layout.leaf, if_neg (by decide),
    if_neg (by decide), if_neg (by decide), if_neg (by decide), if_neg (by decide),
    if_neg (by decide), if_pos rfl, if_neg (by omega), l.units_of_occurs hlt h.right, readUnicode]
  simp only [length_eq_zero_iff]

theorem Layout.object_writeUid (hx : x < 2 ^ 32) (h : Occurs l.bytes o (writeUid x))
    (hend : o + (writeUid x).length ≤ l.offsetTable) :
    l.object o = .leaf (some (.scalar (.uid (UInt64.ofNat x)) 8)) := by
  obtain ⟨hwidth, hfit⟩ := intBytes_spec (x := x) (by omega)
  have hval : writeUid x = UInt8.ofNat (8 * 16 ||| (intBytes x - 1)) :: beTail x (intBytes x) := by
    simp only [writeUid, Nat.mod_eq_of_lt hx]
    rfl
  rw [hval] at h hend
  rw [length_cons, beTail_eq (by omega) (by omega), length_beBytes] at hend
  have hheader : l.header o = some (BPLIST_UID, intBytes x - 1, o + 1) :=
    l.header_short (m := 8) (by omega) (by omega) (.inl rfl) h
  have hsize : intBytes x - 1 + 1 = intBytes x := by omega
  rw [l.object_leaf hheader (by decide) (by decide), Layout.leaf, if_neg (by decide),
    if_neg (by decide), if_neg (by decide), if_neg (by decide), if_neg (by decide),
    if_neg (by decide), if_neg (by decide), if_pos rfl, if_neg (by omega), hsize,
    l.uint_intBytes (by omega) h.tail, if_neg (by omega)]

theorem Layout.object_writeStrval (hnul : NulFree s) (h : Occurs l.bytes o (writeStrval s))
    (hend : o + (writeStrval s).length ≤ l.offsetTable) (htable : l.offsetTable < 2 ^ 64) :
    l.object o = .leaf (readStrval s) := by
  have hstrlen : strlen s = s.length := by rw [strlen, cstr_of_nulFree hnul]
  simp only [writeStrval, hstrlen, take_length] at h hend
  split at h
  · rename_i hascii
    rw [if_pos hascii] at hend
    have hle : s.length ≤ (writeString s).length := by
      rw [writeString, writeRawData, if_neg (by decide), hstrlen, take_length, length_append]
      omega
    rw [readStrval, if_pos hascii]
    exact l.object_writeString hnul h (by omega) hend
  · rename_i hascii
    rw [if_neg hascii] at hend
    have hle : (utf8ToUtf16 s).length ≤ (writeUnicode (utf8ToUtf16 s)).length := by
      have hbytes := length_flatMap_of_const (f := fun u => leBytes 2 (bswap16 u))
        (fun u => length_leBytes 2 _) (utf8ToUtf16 s)
      rw [writeUnicode, writeRawData, if_pos rfl, Nat.shiftLeft_eq, pow_one, length_append,
        take_of_length_le (by omega), hbytes]
      omega
    rw [readStrval, if_neg hascii]
    exact l.object_writeUnicode (utf8ToUtf16_lt s) h (by omega) hend

/-- **A scalar is read back.** -/
theorem Layout.object_scalar (narrow : Narrow) {v : Scalar} {n : Nat}
    (hok : ScalarStored narrow l.widen v n) (h : Occurs l.bytes o (writeScalar l.build narrow v n))
    (hend : o + (writeScalar l.build narrow v n).length ≤ l.offsetTable)
    (htable : l.offsetTable < 2 ^ 64) : l.object o = .leaf (readObject v n) := by
  cases v with
  | boolean b =>
    obtain ⟨rfl | rfl, rfl⟩ := hok
    · have hheader : l.header o = some (BPLIST_NULL, 8, o + 1) :=
        l.header_short (m := 0) (by omega) (by omega) (.inl rfl) h
      rw [l.object_leaf hheader (by decide) (by decide)]
      rfl
    · have hheader : l.header o = some (BPLIST_NULL, 9, o + 1) :=
        l.header_short (m := 0) (by omega) (by omega) (.inl rfl) h
      rw [l.object_leaf hheader (by decide) (by decide)]
      rfl
  | uint x =>
    rcases hok with rfl | rfl
    · rw [l.object_writeInt x.toNat_lt h hend, UInt64.ofNat_toNat]
      rfl
    · exact l.object_writeUint h hend
  | real x =>
    obtain ⟨rfl, hfloat⟩ := hok
    rw [l.object_writeReal narrow x.toNat_lt hfloat h hend, UInt64.ofNat_toNat]
    rfl
  | string s =>
    exact l.object_writeStrval hok.1 h hend htable
  | date x =>
    obtain rfl : n = 8 := hok
    rw [l.object_writeDate x.toNat_lt h hend, UInt64.ofNat_toNat]
    rfl
  | data s =>
    obtain rfl : n = s.length := hok
    have hle : s.length ≤ (writeScalar l.build narrow (.data s) s.length).length := by
      rw [writeScalar, writeData, writeRawData, if_neg (by decide), take_length, length_append]
      omega
    exact l.object_writeData h (by omega) hend
  | key s =>
    exact l.object_writeStrval hok.1 h hend htable
  | uid x =>
    obtain ⟨hx, rfl⟩ := hok
    rw [l.object_writeUid hx h hend, UInt64.ofNat_toNat]
    rfl

end Scalars

/-! ## Tables -/

/-- An object of a table. -/
inductive Entry where
  | scalar (value : Scalar) (length : Nat)
  | array (refs : List Nat)
  | dict (refs : List (Nat × Nat))

/-- The references of an object. -/
def Entry.refs : Entry → List Nat
  | .scalar _ _ => []
  | .array refs => refs
  | .dict refs => refs.map Prod.fst ++ refs.map Prod.snd

/-- The bytes of an object, with references of `refSize` bytes. -/
def Entry.encode (build : Build) (narrow : Narrow) (refSize : Nat) : Entry → List UInt8
  | .scalar value length => writeScalar build narrow value length
  | .array refs => writeMarker BPLIST_ARRAY refs.length ++ refs.flatMap (beBytes refSize)
  | .dict refs =>
    writeMarker BPLIST_DICT refs.length ++
      (refs.map Prod.fst ++ refs.map Prod.snd).flatMap (beBytes refSize)

/-- What is read for an object. -/
def Entry.obj : Entry → Obj
  | .scalar value length => .leaf (some (readScalar value length))
  | .array refs => .array (refs.map some)
  | .dict refs => .dict (refs.map some)

/-- The object can be read, in a table of `n` objects. -/
def Entry.Ok (narrow : Narrow) (widen : Nat → Nat) (n : Nat) : Entry → Prop
  | .scalar value length => ScalarLegible narrow widen value length
  | e => ∀ r ∈ e.refs, r < n

/-- What is found for an object whose strings may be malformed. -/
def Entry.found : Entry → Obj
  | .scalar value length => .leaf (readObject value length)
  | e => e.obj

/-- The object can be looked up, in a table of `n` objects. -/
def Entry.Stored (narrow : Narrow) (widen : Nat → Nat) (n : Nat) : Entry → Prop
  | .scalar value length => ScalarStored narrow widen value length
  | e => ∀ r ∈ e.refs, r < n

theorem Entry.Ok.stored {e : Entry} (h : e.Ok narrow widen n) : e.Stored narrow widen n := by
  cases e with
  | scalar value length => exact ScalarLegible.stored h
  | array refs => exact h
  | dict refs => exact h

theorem Entry.Ok.found_eq {e : Entry} (h : e.Ok narrow widen n) : e.found = e.obj := by
  cases e with
  | scalar value length => rw [Entry.found, Entry.obj, ScalarLegible.readObject_eq h]
  | array refs => rfl
  | dict refs => rfl

/-- The offsets of objects that follow each other from `start` on. -/
def offsetsFrom : Nat → List (List UInt8) → List Nat
  | _, [] => []
  | start, obj :: objs => start :: offsetsFrom (start + obj.length) objs

/-- The header and the objects. -/
def tableBody (build : Build) (narrow : Narrow) (refSize : Nat) (entries : List Entry) :
    List UInt8 :=
  BPLIST_MAGIC ++ BPLIST_VERSION ++ (entries.map (Entry.encode build narrow refSize)).flatten

/-- The offsets of the objects. -/
def tableOffsets (build : Build) (narrow : Narrow) (refSize : Nat) (entries : List Entry) :
    List Nat := offsetsFrom 8 (entries.map (Entry.encode build narrow refSize))

def tableTrailer (offsetSize refSize numObjects root offsetTable : Nat) : List UInt8 :=
  List.replicate 6 0 ++ ([UInt8.ofNat offsetSize] ++ ([UInt8.ofNat refSize] ++
    (beBytes 8 numObjects ++ (beBytes 8 root ++ beBytes 8 offsetTable))))

/-- The file with these objects, with offsets of `offsetSize` bytes and references of `refSize`
bytes. -/
def encodeTable (build : Build) (narrow : Narrow) (offsetSize refSize : Nat)
    (entries : List Entry) (root : Nat) : List UInt8 :=
  tableBody build narrow refSize entries ++
    ((tableOffsets build narrow refSize entries).flatMap (beBytes offsetSize) ++
      tableTrailer offsetSize refSize entries.length root
        (tableBody build narrow refSize entries).length)

/-- The graph of a table. -/
def tableGraph (entries : List Entry) (i : Nat) : Option Obj := entries[i]?.map Entry.obj

/-- The graph of a table whose strings may be malformed. -/
def foundGraph (entries : List Entry) (i : Nat) : Option Obj := entries[i]?.map Entry.found

theorem foundGraph_eq {entries : List Entry} (h : ∀ e ∈ entries, e.Ok narrow widen n) :
    foundGraph entries = tableGraph entries := by
  funext i
  rw [foundGraph, tableGraph]
  cases hi : entries[i]? with
  | none => rfl
  | some e => rw [Option.map_some, Option.map_some, (h e (mem_of_getElem? hi)).found_eq]

/-- `UINT_TO_HOST` reads `x` back from `n` bytes. -/
def Readable (build : Build) (n x : Nat) : Prop := uintToHost build n (beBytes n x) = x

/-! ## Containers -/

section Containers

variable (l : Layout) {o : Nat}

theorem Layout.ref_of_occurs {r : Nat} (h : Occurs l.bytes o (beBytes l.refSize r))
    (hpos : 1 ≤ l.refSize) (hlt : l.refSize < 256) (hread : Readable l.build l.refSize r)
    (hr : r < l.numObjects) (hend : o + l.refSize ≤ l.offsetTable) : l.ref o = some r := by
  have hval : l.uint o l.refSize = r := by
    rw [l.uint_of_occurs h (length_beBytes _ _) hpos hlt]
    exact hread
  simp only [Layout.ref, hval]
  rw [if_neg (by omega), if_neg (by omega)]

theorem Layout.ref_flatMap {refs : List Nat}
    (h : Occurs l.bytes o (refs.flatMap (beBytes l.refSize))) (hpos : 1 ≤ l.refSize)
    (hlt : l.refSize < 256) (hread : ∀ r ∈ refs, Readable l.build l.refSize r)
    (hrefs : ∀ r ∈ refs, r < l.numObjects) (hend : o + refs.length * l.refSize ≤ l.offsetTable)
    {j r : Nat} (hj : refs[j]? = some r) : l.ref (o + j * l.refSize) = some r := by
  have hocc := h.flatMap (fun x => length_beBytes l.refSize x) hj
  have hmem := mem_of_getElem? hj
  obtain ⟨hlt', -⟩ := List.getElem?_eq_some_iff.mp hj
  have hmul : j * l.refSize + l.refSize ≤ refs.length * l.refSize := by
    rw [← Nat.succ_mul]
    exact Nat.mul_le_mul_right _ (by omega)
  exact l.ref_of_occurs hocc hpos hlt (hread r hmem) (hrefs r hmem) (by omega)

theorem Layout.object_array {refs : List Nat}
    (h : Occurs l.bytes o (writeMarker BPLIST_ARRAY refs.length ++ refs.flatMap (beBytes l.refSize)))
    (hend : o + ((writeMarker BPLIST_ARRAY refs.length).length + refs.length * l.refSize) ≤
      l.offsetTable)
    (htable : l.offsetTable < 2 ^ 64) (hpos : 1 ≤ l.refSize) (hlt : l.refSize < 256)
    (hread : ∀ r ∈ refs, Readable l.build l.refSize r) (hrefs : ∀ r ∈ refs, r < l.numObjects) :
    l.object o = .array (refs.map some) := by
  have hle := Nat.mul_le_mul_left refs.length hpos
  have hheader : l.header o =
      some (BPLIST_ARRAY, refs.length, o + (writeMarker BPLIST_ARRAY refs.length).length) :=
    l.header_marker (m := 10) (by omega) rfl (by omega) h
      (by show o + (writeMarker BPLIST_ARRAY refs.length).length ≤ _; omega)
  simp only [Layout.object, hheader]
  rw [if_pos (.inr trivial), if_neg (by omega)]
  congr 1
  apply ext_getElem (by simp)
  intro j hj hj'
  simp only [getElem_map, getElem_range]
  exact l.ref_flatMap h.right hpos hlt hread hrefs (by omega)
    (List.getElem?_eq_getElem (by simpa using hj))

theorem Layout.object_dict {refs : List (Nat × Nat)}
    (h : Occurs l.bytes o (writeMarker BPLIST_DICT refs.length ++
      (refs.map Prod.fst ++ refs.map Prod.snd).flatMap (beBytes l.refSize)))
    (hend : o + ((writeMarker BPLIST_DICT refs.length).length +
      (refs.length + refs.length) * l.refSize) ≤ l.offsetTable)
    (htable : l.offsetTable < 2 ^ 64) (hpos : 1 ≤ l.refSize) (hlt : l.refSize < 256)
    (hread : ∀ r ∈ refs.map Prod.fst ++ refs.map Prod.snd, Readable l.build l.refSize r)
    (hrefs : ∀ r ∈ refs.map Prod.fst ++ refs.map Prod.snd, r < l.numObjects) :
    l.object o = .dict (refs.map some) := by
  have hle := Nat.mul_le_mul_left (refs.length + refs.length) hpos
  have hheader : l.header o =
      some (BPLIST_DICT, refs.length, o + (writeMarker BPLIST_DICT refs.length).length) :=
    l.header_marker (m := 13) (by omega) rfl (by omega) h
      (by show o + (writeMarker BPLIST_DICT refs.length).length ≤ _; omega)
  simp only [Layout.object, hheader]
  rw [if_neg (by decide), if_pos trivial, if_neg (by omega)]
  congr 1
  apply ext_getElem (by simp)
  intro j hj hj'
  have hj : j < refs.length := by simpa using hj
  have hbound : o + (writeMarker BPLIST_DICT refs.length).length +
      (refs.map Prod.fst ++ refs.map Prod.snd).length * l.refSize ≤ l.offsetTable := by
    simp only [length_append, length_map]
    omega
  have hfst := l.ref_flatMap h.right hpos hlt hread hrefs hbound (j := j) (r := refs[j].1)
    (by simp [List.getElem?_append_left, hj])
  have hsnd := l.ref_flatMap h.right hpos hlt hread hrefs hbound (j := j + refs.length)
    (r := refs[j].2) (by simp [hj])
  simp only [getElem_map, getElem_range, Layout.refPair, hfst, hsnd,
    Option.bind_eq_bind, Option.bind_some]

/-- **An object of a table is read back.** -/
theorem Layout.object_entry (narrow : Narrow) {e : Entry}
    (h : Occurs l.bytes o (e.encode l.build narrow l.refSize))
    (hend : o + (e.encode l.build narrow l.refSize).length ≤ l.offsetTable)
    (htable : l.offsetTable < 2 ^ 64) (hpos : 1 ≤ l.refSize) (hlt : l.refSize < 256)
    (hread : ∀ r ∈ e.refs, Readable l.build l.refSize r)
    (hok : e.Stored narrow l.widen l.numObjects) : l.object o = e.found := by
  have hlen (refs : List Nat) : (refs.flatMap (beBytes l.refSize)).length =
      refs.length * l.refSize := length_flatMap_of_const (fun x => length_beBytes _ x) refs
  cases e with
  | scalar value length => exact l.object_scalar narrow hok h hend htable
  | array refs =>
    rw [Entry.encode, length_append, hlen] at hend
    exact l.object_array h hend htable hpos hlt hread hok
  | dict refs =>
    rw [Entry.encode, length_append, hlen, length_append, length_map, length_map] at hend
    exact l.object_dict h hend htable hpos hlt hread hok

end Containers

/-! ## The file -/

theorem length_offsetsFrom (start : Nat) (objs : List (List UInt8)) :
    (offsetsFrom start objs).length = objs.length := by
  induction objs generalizing start with
  | nil => rfl
  | cons obj objs ih => rw [offsetsFrom, length_cons, ih, length_cons]

theorem occurs_offsetsFrom {bytes : List UInt8} {start : Nat} {objs : List (List UInt8)}
    (h : Occurs bytes start objs.flatten) {i : Nat} {obj : List UInt8}
    (hi : (offsetsFrom start objs)[i]? = some o) (hobj : objs[i]? = some obj) :
    Occurs bytes o obj ∧ start ≤ o ∧ o + obj.length ≤ start + objs.flatten.length := by
  induction objs generalizing start i with
  | nil => simp at hobj
  | cons b objs ih =>
    rw [flatten_cons] at h
    rw [flatten_cons, length_append]
    cases i with
    | zero =>
      obtain rfl : start = o := by simpa [offsetsFrom] using hi
      obtain rfl : b = obj := by simpa using hobj
      exact ⟨h.left, Nat.le_refl _, by omega⟩
    | succ i =>
      obtain ⟨hocc, hle, hend⟩ := ih h.right (i := i) (by simpa [offsetsFrom] using hi)
        (by simpa using hobj)
      exact ⟨hocc, by omega, by omega⟩

theorem length_writeRawData_pos (mark : Nat) (val : List UInt8) (size : Nat) :
    1 ≤ (writeRawData mark val size).length := by
  rw [writeRawData, writeMarker, length_append, length_cons]
  omega

theorem Entry.length_encode_pos (build : Build) (narrow : Narrow) (refSize : Nat) (e : Entry) :
    1 ≤ (e.encode build narrow refSize).length := by
  cases e with
  | array refs => simp [Entry.encode, writeMarker]
  | dict refs => simp [Entry.encode, writeMarker]
  | scalar value length =>
    have hstr (s : List UInt8) : 1 ≤ (writeStrval s).length := by
      simp only [writeStrval]
      split
      · exact length_writeRawData_pos _ _ _
      · exact length_writeRawData_pos _ _ _
    cases value with
    | boolean b => simp [Entry.encode, writeScalar]
    | uint x =>
      simp only [Entry.encode, writeScalar]
      split
      · simp [writeUint]
      · simp [writeInt]
    | real x =>
      simp only [Entry.encode, writeScalar, writeReal]
      split <;> simp
    | string s => exact hstr s
    | key s => exact hstr s
    | data s => exact length_writeRawData_pos _ _ _
    | date x => simp [Entry.encode, writeScalar, writeDate]
    | uid x => simp [Entry.encode, writeScalar, writeUid]

section File

variable {build : Build} {narrow : Narrow} {widen : Nat → Nat} {offsetSize refSize : Nat}
  {entries : List Entry} {root : Nat}

theorem length_tableTrailer (offsetSize refSize n root table : Nat) :
    (tableTrailer offsetSize refSize n root table).length = 32 := by
  simp [tableTrailer]

theorem be64_of_occurs {bytes : List UInt8} {o x : Nat} (hx : x < 2 ^ 64)
    (h : Occurs bytes o (beBytes 8 x)) : be64 bytes o = x := by
  have hslice := h.slice_eq
  rw [length_beBytes] at hslice
  rw [be64, hslice, bswap64_leVal (length_beBytes 8 x), beVal_beBytes (by omega)]

/-- **The file of a table is read as its graph.** -/
theorem openLayout_encodeTable (hoff : 1 ≤ offsetSize ∧ offsetSize < 256)
    (href : 1 ≤ refSize ∧ refSize < 256) (hroot : root < entries.length)
    (hlen : (encodeTable build narrow offsetSize refSize entries root).length < 2 ^ 32)
    (hok : ∀ e ∈ entries, e.Stored narrow widen entries.length)
    (hoffsets : ∀ x ∈ tableOffsets build narrow refSize entries, Readable build offsetSize x)
    (hrefs : ∀ e ∈ entries, ∀ r ∈ e.refs, Readable build refSize r) :
    ∃ l, openLayout build widen (encodeTable build narrow offsetSize refSize entries root) =
        some (l, root) ∧ l.graph = foundGraph entries := by
  obtain ⟨bytes, hbytes⟩ : ∃ b, encodeTable build narrow offsetSize refSize entries root = b :=
    ⟨_, rfl⟩
  obtain ⟨body, hbody⟩ : ∃ b, tableBody build narrow refSize entries = b := ⟨_, rfl⟩
  obtain ⟨offsets, hoffs⟩ : ∃ b, tableOffsets build narrow refSize entries = b := ⟨_, rfl⟩
  have hnum : offsets.length = entries.length := by
    rw [← hoffs, tableOffsets, length_offsetsFrom, length_map]
  have htableLen : (offsets.flatMap (beBytes offsetSize)).length = entries.length * offsetSize := by
    rw [length_flatMap_of_const (fun x => length_beBytes _ x), hnum]
  have hmul := Nat.mul_le_mul_left entries.length hoff.1
  have hsplit : bytes = body ++ (offsets.flatMap (beBytes offsetSize) ++
      tableTrailer offsetSize refSize entries.length root body.length) := by
    rw [← hbytes, encodeTable, hbody, hoffs]
  have hL : bytes.length = body.length + entries.length * offsetSize + 32 := by
    rw [hsplit, length_append, length_append, htableLen, length_tableTrailer]
    omega
  rw [hbytes] at hlen ⊢
  have hend : bytes.length - 32 = body.length + entries.length * offsetSize := by omega
  -- where the parts are
  have htable : Occurs bytes body.length (offsets.flatMap (beBytes offsetSize)) :=
    ⟨body, _, hsplit, rfl⟩
  have htrailer : Occurs bytes (bytes.length - 32)
      (tableTrailer offsetSize refSize entries.length root body.length) :=
    ⟨body ++ offsets.flatMap (beBytes offsetSize), [], by rw [hsplit]; simp, by
      rw [length_append, htableLen, hend]⟩
  have hobjects : Occurs bytes 8 (entries.map (Entry.encode build narrow refSize)).flatten := by
    have hall : Occurs bytes 0 body := ⟨[], _, by rw [hsplit]; rfl, rfl⟩
    rw [← hbody, tableBody] at hall
    exact hall.right
  have hmagic : Occurs bytes 0 (BPLIST_MAGIC ++ BPLIST_VERSION) := by
    have hall : Occurs bytes 0 body := ⟨[], _, by rw [hsplit]; rfl, rfl⟩
    rw [← hbody, tableBody] at hall
    exact hall.left
  have hbodyLen : body.length = 8 + (entries.map (Entry.encode build narrow refSize)).flatten.length := by
    rw [← hbody, tableBody, length_append]
    rfl
  -- the tests of the trailer
  have t1 := htrailer.right
  have t2 := t1.right
  have t3 := t2.right
  have t4 := t3.right
  have t5 := t4.right
  simp only [length_replicate, length_singleton, length_beBytes, Nat.add_assoc,
    Nat.reduceAdd] at t1 t2 t3 t4 t5
  have hos : (bytes.getD (bytes.length - 32 + 6) 0).toNat = offsetSize := by
    rw [t1.getD_eq, UInt8.toNat_ofNat', Nat.mod_eq_of_lt hoff.2]
  have hrs : (bytes.getD (bytes.length - 32 + 7) 0).toNat = refSize := by
    rw [t2.getD_eq, UInt8.toNat_ofNat', Nat.mod_eq_of_lt href.2]
  have hn : be64 bytes (bytes.length - 32 + 8) = entries.length := be64_of_occurs (by omega) t3.left
  have hr : be64 bytes (bytes.length - 32 + 16) = root := be64_of_occurs (by omega) t4.left
  have ht : be64 bytes (bytes.length - 32 + 24) = body.length := be64_of_occurs (by omega) t5
  refine ⟨⟨build, widen, bytes, entries.length, refSize, offsetSize, body.length⟩, ?_, ?_⟩
  · have hm : slice bytes 0 6 = BPLIST_MAGIC := hmagic.left.slice_eq
    have hv : slice bytes 6 2 = BPLIST_VERSION := hmagic.right.slice_eq
    simp only [openLayout, hos, hrs, hn, hr, ht]
    rw [if_neg (by omega), if_neg (not_not.mpr hm), if_neg (not_not.mpr hv), if_neg (by omega),
      if_neg (by omega), if_neg (by omega)]
  · funext i
    simp only [Layout.graph, foundGraph]
    by_cases hi : i < entries.length
    · have he : entries[i]? = some entries[i] := List.getElem?_eq_getElem hi
      have hoi : offsets[i]? = some offsets[i] := List.getElem?_eq_getElem (by omega)
      have hocc := htable.flatMap (fun x => length_beBytes offsetSize x) hoi
      have hval : Layout.uint ⟨build, widen, bytes, entries.length, refSize, offsetSize, body.length⟩
          (body.length + i * offsetSize) offsetSize = offsets[i] := by
        rw [Layout.uint_of_occurs _ hocc (length_beBytes _ _) hoff.1 hoff.2]
        exact hoffsets _ (by rw [hoffs]; exact getElem_mem _)
      obtain ⟨hobj, -, hend'⟩ := occurs_offsetsFrom hobjects (i := i) (o := offsets[i])
        (by rw [← hoi, ← hoffs]; rfl) (by rw [List.getElem?_map, he]; rfl)
      have hpos := Entry.length_encode_pos build narrow refSize entries[i]
      rw [if_neg (by omega), hval, if_neg (by omega), he, Option.map_some]
      congr 1
      exact Layout.object_entry _ narrow hobj (by simp only; omega) (by simp only; omega) href.1 href.2
        (hrefs _ (getElem_mem hi)) (hok _ (getElem_mem hi))
    · rw [if_pos (by omega), List.getElem?_eq_none (by omega)]
      rfl

end File

end IDeviceStack.Libplist.Bplist
