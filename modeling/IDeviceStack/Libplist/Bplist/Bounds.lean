/-
# `Libplist.Bplist.Bounds` — the reader stays in its buffer

The code of `IDeviceStack.Libplist.Bplist.Parse`, with its pointers and its
wrapping arithmetic, does what `IDeviceStack.Libplist.Bplist.Objects` says in
offsets and without wrapping.  The objects say nothing about addresses, so this
one equation has everything in it: no read is outside of the buffer, no sum or
product that wraps makes a test pass, and what is found does not depend on where
the buffer is.

The buffer is below `2 ^ 63`, as buffers of a process are, and shorter than
`2 ^ 32`, as its length is a `uint32_t`.
-/
import IDeviceStack.Libplist.Bplist.Objects

namespace IDeviceStack.Libplist.Bplist

open Lib

/-! ## Arithmetic -/

/-- The two kinds of arithmetic. -/
def Arith.Wraps (A : Arith) : Prop := A = .machine ∨ A = .exact

namespace Arith.Wraps

variable {A : Arith} (hA : A.Wraps)
include hA

theorem w64 (x : Nat) : A.w64 x = x ∨ 2 ^ 64 ≤ x ∧ A.w64 x = x % 2 ^ 64 := by
  rcases hA with rfl | rfl
  · rcases Nat.lt_or_ge x (2 ^ 64) with h | h
    · exact .inl (Nat.mod_eq_of_lt h)
    · exact .inr ⟨h, rfl⟩
  · exact .inl rfl

variable {x : Nat}

theorem w64_of_lt (hx : x < 2 ^ 64) : A.w64 x = x := by
  rcases hA.w64 x with h | ⟨h, -⟩
  · exact h
  · omega

theorem w32_of_lt (hx : x < 2 ^ 32) : A.w32 x = x := by
  rcases hA with rfl | rfl
  · exact Nat.mod_eq_of_lt hx
  · rfl

theorem w64_add {y : Nat} (hx : x < 2 ^ 64) (hy : A.w64 y = y) :
    A.w64 (x + y) = x + y ∨ 2 ^ 64 ≤ x + y ∧ A.w64 (x + y) < x := by
  rcases hA with rfl | rfl
  · simp only [Arith.machine] at hy ⊢
    omega
  · exact .inl rfl

end Arith.Wraps

/-! ## Values -/

theorem uintToHost_lt (build : Build) (n : Nat) (bs : List UInt8) :
    uintToHost build n bs < 2 ^ 64 := by
  simp only [uintToHost]
  split
  · rw [bswap64_eq]
    omega
  · split
    · rw [bswap32_eq]
      omega
    · split
      · have hlt := leVal_lt (byteConvert build (0 :: bs.take 3))
        have hlen : (byteConvert build (0 :: bs.take 3)).length ≤ 4 := by
          have hswap : ∀ k i (a : List UInt8), (byteSwap k i a).length = a.length := by
            intro k
            induction k with
            | zero => exact fun _ _ => rfl
            | succ k ih =>
              intro i a
              rw [byteSwap, ih, List.length_set, List.length_set]
          simp only [byteConvert]
          split <;> simp [hswap]
        have hpow : 256 ^ (byteConvert build (0 :: bs.take 3)).length ≤ 256 ^ 4 :=
          Nat.pow_le_pow_right (by omega) hlen
        simp only [uint24FromBe]
        omega
      · split
        · rw [bswap16_eq]
          omega
        · have hlt := leVal_lt (bs.take 1)
          have hpow : 256 ^ (bs.take 1).length ≤ 256 ^ 1 :=
            Nat.pow_le_pow_right (by omega) (by simp)
          omega

theorem uintBytes_mod_le {n : Nat} (hn : 1 ≤ n) : uintBytes (n % 256) ≤ n := by
  simp only [uintBytes]
  split
  · omega
  · split
    · omega
    · split
      · omega
      · split <;> omega

theorem shiftLeft_one_bounds {k : Nat} (hk : k < 16) : 1 ≤ 1 <<< k ∧ 1 <<< k ≤ 2 ^ 15 := by
  rw [Nat.shiftLeft_eq, Nat.one_mul]
  exact ⟨Nat.one_le_two_pow, Nat.pow_le_pow_right (by omega) (by omega)⟩

/-! ## Reading -/

section Reading

variable {base : Nat} {bytes : List UInt8}

theorem load_base_add {o : Nat} (ho : o < bytes.length) :
    (Mem.mk base bytes).load (base + o) = .ok (bytes.getD o 0) := by
  simp [Mem.load, ho]

theorem loads_base_add {o n : Nat} (h : o + n ≤ bytes.length) :
    (Mem.mk base bytes).loads (base + o) n = .ok (slice bytes o n) := by
  induction n generalizing o with
  | zero => simp [Mem.loads, slice]
  | succ n ih =>
    have hdrop : bytes.drop o = bytes.getD o 0 :: bytes.drop (o + 1) := by
      rw [List.drop_eq_getElem_cons (by omega)]
      simp [List.getD_eq_getElem?_getD, show o < bytes.length by omega]
    have htail := ih (o := o + 1) (by omega)
    rw [Mem.loads, load_base_add (by omega), Nat.add_assoc, htail, slice, slice, hdrop,
      List.take_succ_cons]
    rfl

end Reading

/-! ## A layout in memory -/

/-- The run that reads this layout from address `base` on. -/
def Layout.ctx (l : Layout) (A : Arith) (base : Nat) : Ctx := ⟨A, l.build, ⟨base, l.bytes⟩, l.widen⟩

/-- What the code keeps of it. -/
def Layout.data (l : Layout) (base : Nat) : BplistData :=
  ⟨base, l.bytes.length, l.numObjects, l.refSize, l.offsetSize, base + l.offsetTable⟩

section Fields

variable (l : Layout) (A : Arith) (base : Nat)

@[simp] theorem Layout.ctx_arith : (l.ctx A base).arith = A := rfl
@[simp] theorem Layout.ctx_build : (l.ctx A base).build = l.build := rfl
@[simp] theorem Layout.ctx_mem : (l.ctx A base).mem = ⟨base, l.bytes⟩ := rfl
@[simp] theorem Layout.ctx_widen : (l.ctx A base).widen = l.widen := rfl
@[simp] theorem Layout.data_data : (l.data base).data = base := rfl
@[simp] theorem Layout.data_numObjects : (l.data base).numObjects = l.numObjects := rfl
@[simp] theorem Layout.data_refSize : (l.data base).refSize = l.refSize := rfl
@[simp] theorem Layout.data_offsetSize : (l.data base).offsetSize = l.offsetSize := rfl
@[simp] theorem Layout.data_offsetTable : (l.data base).offsetTable = base + l.offsetTable := rfl

end Fields

variable {o size : Nat}

/-- What `plist_from_bin` has tested before it parses. -/
structure Layout.Valid (l : Layout) : Prop where
  length_lt : l.bytes.length < 2 ^ 32
  table_le : l.offsetTable + l.numObjects * l.offsetSize + 32 ≤ l.bytes.length
  offsetSize_pos : 1 ≤ l.offsetSize
  offsetSize_lt : l.offsetSize < 256
  refSize_pos : 1 ≤ l.refSize
  refSize_lt : l.refSize < 256

theorem Layout.uintAt_ctx (l : Layout) {A : Arith} {base o n : Nat} (hn : 1 ≤ n)
    (ho : o + n ≤ l.bytes.length) : (l.ctx A base).uintAt (base + o) n = .ok (l.uint o n) := by
  have hle := uintBytes_mod_le hn
  rw [Ctx.uintAt, Layout.ctx_mem, loads_base_add (by omega)]
  rfl

/-! ## Payloads -/

namespace Layout

variable (l : Layout) {A : Arith} {base : Nat}

variable {o : Nat}

theorem loadUnits_ctx {n : Nat} (h : o + n * 2 ≤ l.bytes.length) :
    loadUnits (l.ctx A base) (base + o) n = .ok (l.units o n) := by
  induction n generalizing o with
  | zero => rfl
  | succ n ih =>
    have htail := ih (o := o + 2) (by omega)
    simp only [loadUnits, Layout.ctx_mem,
      loads_base_add (show o + 2 ≤ l.bytes.length by omega), ok_bind,
      Nat.add_assoc, htail, Layout.units, List.range_succ_eq_map, List.map_cons, List.map_map]
    congr 3
    funext i
    simp only [Function.comp, Nat.succ_eq_add_one, Nat.mul_add, Nat.mul_one]
    rw [Nat.add_comm 2 (2 * i)]

variable {size : Nat}

theorem parseUintNode_ctx (ho : o + 1 <<< size ≤ l.bytes.length) :
    parseUintNode (l.ctx A base) (base + o) size =
      .ok (if (1 <<< size) % 256 = 1 ∨ (1 <<< size) % 256 = 2 ∨ (1 <<< size) % 256 = 4 ∨
          (1 <<< size) % 256 = 8 then
        some (.scalar (.uint (UInt64.ofNat (l.uint o ((1 <<< size) % 256)))) 8)
      else if (1 <<< size) % 256 = 16 then
        some (.scalar (.uint (UInt64.ofNat (l.uint o ((1 <<< size) % 256)))) 16)
      else none) := by
  have hle : (1 <<< size) % 256 ≤ 1 <<< size := Nat.mod_le _ _
  simp only [parseUintNode]
  by_cases h : (1 <<< size) % 256 = 1 ∨ (1 <<< size) % 256 = 2 ∨ (1 <<< size) % 256 = 4 ∨
      (1 <<< size) % 256 = 8
  · rw [if_pos h, if_pos h, l.uintAt_ctx (by omega) (by omega), ok_bind]
  · rw [if_neg h, if_neg h]
    by_cases h16 : (1 <<< size) % 256 = 16
    · rw [if_pos h16, if_pos h16, l.uintAt_ctx (by omega) (by omega), ok_bind]
    · rw [if_neg h16, if_neg h16]

theorem parseRealBits_ctx (ho : o + 1 <<< size ≤ l.bytes.length) :
    parseRealBits (l.ctx A base) (base + o) size = .ok (l.realBits o size) := by
  have hle : (1 <<< size) % 256 ≤ 1 <<< size := Nat.mod_le _ _
  simp only [parseRealBits, Layout.realBits, Layout.ctx_mem, Layout.ctx_build, Layout.ctx_widen]
  by_cases h4 : (1 <<< size) % 256 = 4
  · rw [if_pos h4, if_pos h4, loads_base_add (by omega)]
    rfl
  · rw [if_neg h4, if_neg h4]
    by_cases h8 : (1 <<< size) % 256 = 8
    · rw [if_pos h8, if_pos h8, loads_base_add (by omega)]
      rfl
    · rw [if_neg h8, if_neg h8]

theorem parseUidNode_ctx (ho : o + size + 1 ≤ l.bytes.length) :
    parseUidNode (l.ctx A base) (base + o) size =
      .ok (if l.uint o (size + 1) > 0xffffffff then none
      else some (.scalar (.uid (UInt64.ofNat (l.uint o (size + 1)))) 8)) := by
  rw [parseUidNode, l.uintAt_ctx (by omega) (by omega), ok_bind]
  split <;> rfl

end Layout

namespace Layout.Valid

variable {l : Layout} (hl : l.Valid)
include hl

theorem numObjects_le : l.numObjects + l.offsetTable + 32 ≤ l.bytes.length := by
  have h := Nat.mul_le_mul_left l.numObjects hl.offsetSize_pos
  have ht := hl.table_le
  omega

theorem mul_refSize_le {j k : Nat} (hj : j ≤ k) : j * l.refSize ≤ k * 255 :=
  Nat.mul_le_mul hj (by have := hl.refSize_lt; omega)

variable {A : Arith} (hA : A.Wraps) {base : Nat} (hbase : base < 2 ^ 63)
include hA hbase

theorem refAt_eq (ho : o < 2 ^ 42) :
    refAt (l.ctx A base) (l.data base) (base + o) = .ok (l.ref o) := by
  have hr := hl.refSize_lt
  have hw : A.w64 (base + o + l.refSize) = base + o + l.refSize := hA.w64_of_lt (by omega)
  have ht := hl.table_le
  simp only [refAt, Layout.data_data, Layout.data_refSize, Layout.data_offsetTable,
    Layout.data_numObjects, Layout.ctx_arith, hw, Layout.ref]
  by_cases hout : o + l.refSize > l.offsetTable
  · rw [if_pos (by omega), if_pos hout]
  · rw [if_neg (by omega), if_neg hout, l.uintAt_ctx hl.refSize_pos (by omega)]
    simp only [ok_bind]
    by_cases hidx : l.uint o l.refSize ≥ l.numObjects
    · simp only [hidx, if_true]
    · simp only [hidx, if_false]

theorem dictRefs_eq {j : Nat} (ho : o < 2 ^ 32) (hsize : size < 2 ^ 32) (hj : j < size) :
    dictRefs (l.ctx A base) (l.data base) (base + o) size j = .ok (l.refPair o size j) := by
  have hr := hl.refSize_lt
  have hi := hl.mul_refSize_le (j := j) (k := 2 ^ 32) (by omega)
  have hk := hl.mul_refSize_le (j := j + size) (k := 2 ^ 33) (by omega)
  have ht := hl.table_le
  have w0 : A.w64 (j * l.refSize) = j * l.refSize := hA.w64_of_lt (by omega)
  have w1 : A.w64 (j + size) = j + size := hA.w64_of_lt (by omega)
  have w2 : A.w64 ((j + size) * l.refSize) = (j + size) * l.refSize := hA.w64_of_lt (by omega)
  have w3 : A.w64 (base + o + j * l.refSize) = base + (o + j * l.refSize) := by
    rw [hA.w64_of_lt (by omega), Nat.add_assoc]
  have w4 : A.w64 (base + o + (j + size) * l.refSize) = base + (o + (j + size) * l.refSize) := by
    rw [hA.w64_of_lt (by omega), Nat.add_assoc]
  have w5 : A.w64 (base + (o + j * l.refSize) + l.refSize) =
      base + (o + j * l.refSize) + l.refSize := hA.w64_of_lt (by omega)
  have w6 : A.w64 (base + (o + (j + size) * l.refSize) + l.refSize) =
      base + (o + (j + size) * l.refSize) + l.refSize := hA.w64_of_lt (by omega)
  simp only [dictRefs, Layout.data_data, Layout.data_refSize, Layout.data_offsetTable,
    Layout.data_numObjects, Layout.ctx_arith, w0, w1, w2, w3, w4, w5, w6, Layout.refPair,
    Layout.ref]
  by_cases h1 : o + j * l.refSize + l.refSize > l.offsetTable
  · rw [if_pos (by omega), if_pos h1]
    rfl
  · by_cases h2 : o + (j + size) * l.refSize + l.refSize > l.offsetTable
    · rw [if_pos (by omega), if_neg h1, if_pos h2]
      split <;> rfl
    · rw [if_neg (by omega), if_neg h1, if_neg h2, l.uintAt_ctx hl.refSize_pos (by omega),
        l.uintAt_ctx hl.refSize_pos (by omega)]
      simp only [ok_bind]
      by_cases hidx1 : l.uint (o + j * l.refSize) l.refSize ≥ l.numObjects
      · simp only [hidx1, if_true]
        rfl
      · by_cases hidx2 : l.uint (o + (j + size) * l.refSize) l.refSize ≥ l.numObjects
        · simp only [hidx1, hidx2, if_true, if_false]
          rfl
        · simp only [hidx1, hidx2, if_false]
          rfl

omit hA hbase in
theorem ref_lt {index : Nat} (h : l.ref o = some index) : index < 2 ^ 32 := by
  have hn := hl.numObjects_le
  have hlt := hl.length_lt
  simp only [Layout.ref] at h
  split at h
  · cases h
  · split at h
    · cases h
    · cases h
      omega

theorem parseArrayLoop_eq (atIndex : Nat → ParseState → Parsed) (ho : o < 2 ^ 32) (n j : Nat)
    (hn : j + n < 2 ^ 32) (children : List Plist) (st : ParseState) :
    parseArrayLoop (l.ctx A base) (l.data base) atIndex (base + o) n j children st =
      walkArray atIndex ((List.range' j n).map fun j => l.ref (o + j * l.refSize)) children st := by
  induction n generalizing j children st with
  | zero => rfl
  | succ n ih =>
    have hj := hl.mul_refSize_le (j := j) (k := 2 ^ 32) (by omega)
    have w0 : A.w64 (j * l.refSize) = j * l.refSize := hA.w64_of_lt (by omega)
    have w1 : A.w64 (base + o + j * l.refSize) = base + (o + j * l.refSize) := by
      rw [hA.w64_of_lt (by omega), Nat.add_assoc]
    simp only [parseArrayLoop, Layout.ctx_arith, Layout.data_refSize, List.range'_succ,
      List.map_cons, w0, w1, hl.refAt_eq hA hbase (o := o + j * l.refSize) (by omega), ok_bind]
    cases href : l.ref (o + j * l.refSize) with
    | none => rfl
    | some index =>
      simp only [walkArray, hA.w32_of_lt (hl.ref_lt href)]
      congr 1
      funext ⟨val, st'⟩
      cases val with
      | none => rfl
      | some val => exact ih (j + 1) (by omega) (children ++ [val]) st'

theorem parseDictLoop_eq (atIndex : Nat → ParseState → Parsed) (ho : o < 2 ^ 32)
    (hsize : size < 2 ^ 32) (n j : Nat) (hn : j + n ≤ size) (children : List Plist)
    (st : ParseState) :
    parseDictLoop (l.ctx A base) (l.data base) atIndex (base + o) size n j children st =
      walkDict atIndex ((List.range' j n).map (l.refPair o size)) children st := by
  induction n generalizing j children st with
  | zero => rfl
  | succ n ih =>
    simp only [parseDictLoop, Layout.ctx_arith, List.range'_succ, List.map_cons,
      hl.dictRefs_eq hA hbase ho hsize (show j < size by omega), ok_bind]
    cases hrefs : l.refPair o size j with
    | none => rfl
    | some refs =>
      obtain ⟨index1, index2⟩ := refs
      obtain ⟨h1, h2⟩ : index1 < 2 ^ 32 ∧ index2 < 2 ^ 32 := by
        simp only [Layout.refPair, Option.bind_eq_bind, Option.bind_eq_some_iff] at hrefs
        obtain ⟨i1, hi1, i2, hi2, heq⟩ := hrefs
        cases heq
        exact ⟨hl.ref_lt hi1, hl.ref_lt hi2⟩
      simp only [walkDict, hA.w32_of_lt h1, hA.w32_of_lt h2]
      congr 1
      funext ⟨key, st'⟩
      cases hkey : key.bind asKey with
      | none => rfl
      | some key =>
        dsimp only
        congr 1
        funext ⟨val, st''⟩
        cases val with
        | none => rfl
        | some val => exact ih (j + 1) (by omega) (children ++ [key, val]) st''

/-! ## One object -/

theorem bodyOutside_iff (ho : o < 2 ^ 32) (hsize : A.w64 size = size) :
    bodyOutside (l.ctx A base) (l.data base) (base + o) size = true ↔ o + size > l.offsetTable := by
  have hlt := hl.length_lt
  have ht := hl.table_le
  rw [bodyOutside, decide_eq_true_iff, Layout.ctx_arith, Layout.data_offsetTable]
  rcases hA.w64_add (x := base + o) (y := size) (by omega) hsize with h | ⟨hbig, h⟩
  · rw [h]
    omega
  · exact ⟨fun _ => by omega, fun _ => .inl h⟩

omit hl in
theorem shiftOutside_iff (ho : o < 2 ^ 32) (hsize : size < 16) :
    (l.ctx A base).arith.w64 (base + o + 1 <<< size) > (l.data base).offsetTable ↔
      o + 1 <<< size > l.offsetTable := by
  obtain ⟨-, hk⟩ := shiftLeft_one_bounds hsize
  rw [Layout.ctx_arith, Layout.data_offsetTable, hA.w64_of_lt (by omega)]
  omega

theorem parseHeader_eq (ho : o < l.offsetTable) :
    parseHeader (l.ctx A base) (l.data base) (base + o) =
      .ok ((l.header o).map fun h => (h.1, h.2.1, base + h.2.2)) := by
  have hlt := hl.length_lt
  have ht := hl.table_le
  have w1 : A.w64 (base + o + 1) = base + (o + 1) := by
    rw [hA.w64_of_lt (by omega), Nat.add_assoc]
  have w2 : A.w64 (base + (o + 1) + 1) = base + (o + 2) := hA.w64_of_lt (by omega)
  simp only [parseHeader, Layout.ctx_mem, Layout.ctx_arith, w1,
    load_base_add (show o < l.bytes.length by omega),
    load_base_add (show o + 1 < l.bytes.length by omega), ok_bind, w2, Layout.header,
    Layout.data_offsetTable]
  by_cases hsize : (l.bytes.getD o 0).toNat &&& 15 = 15 ∧
      hasSizeNode ((l.bytes.getD o 0).toNat &&& 240) = true
  · rw [if_pos hsize, if_pos hsize]
    by_cases htype : (l.bytes.getD (o + 1) 0).toNat &&& 240 ≠ BPLIST_UINT
    · rw [if_pos htype, if_pos htype]
      rfl
    · rw [if_neg htype, if_neg htype]
      obtain ⟨hk1, hk2⟩ := shiftLeft_one_bounds (k := (l.bytes.getD (o + 1) 0).toNat &&& 15)
        (Nat.lt_succ_of_le Nat.and_le_right)
      have w3 : A.w64 (base + (o + 2) + 1 <<< ((l.bytes.getD (o + 1) 0).toNat &&& 15)) =
          base + (o + 2 + 1 <<< ((l.bytes.getD (o + 1) 0).toNat &&& 15)) := by
        rw [hA.w64_of_lt (by omega), Nat.add_assoc]
      simp only [w3]
      by_cases hout : o + 2 + 1 <<< ((l.bytes.getD (o + 1) 0).toNat &&& 15) > l.offsetTable
      · rw [if_pos (by omega), if_pos hout]
        rfl
      · rw [if_neg (by omega), if_neg hout, l.uintAt_ctx hk1 (by omega)]
        rfl
  · rw [if_neg hsize, if_neg hsize]
    rfl

variable {type : Nat}

omit hl hA hbase in
theorem header_bounds {body : Nat} (ho : o < l.offsetTable)
    (h : l.header o = some (type, size, body)) :
    body ≤ l.offsetTable ∧ size < 2 ^ 64 ∧
      (hasSizeNode type = false → size < 16) := by
  simp only [Layout.header] at h
  split at h
  · split at h
    · cases h
    · split at h
      · cases h
      · rename_i hsize _ hout
        cases h
        refine ⟨by omega, uintToHost_lt _ _ _, fun hno => ?_⟩
        rw [hsize.2] at hno
        cases hno
  · cases h
    have hle : (l.bytes.getD o 0).toNat &&& 15 ≤ 15 := Nat.and_le_right
    exact ⟨by omega, by omega, fun _ => by omega⟩

theorem parseBody_leaf (atIndex : Nat → ParseState → Parsed) (ho : o ≤ l.offsetTable)
    (hsize : size < 2 ^ 64) (h16 : hasSizeNode type = false → size < 16)
    (hset : ¬(type = BPLIST_SET ∨ type = BPLIST_ARRAY)) (hdict : type ≠ BPLIST_DICT)
    (st : ParseState) :
    parseBody (l.ctx A base) (l.data base) atIndex type size (base + o) st =
      .ok (l.leaf type size o, st) := by
  have hlt := hl.length_lt
  have ht := hl.table_le
  have hbody := hl.bodyOutside_iff hA hbase (o := o) (by omega) (hA.w64_of_lt hsize)
  -- the kinds whose size is in the marker
  have hshift (h : hasSizeNode type = false) :=
    shiftOutside_iff (l := l) hA hbase (o := o) (by omega) (h16 h)
  simp only [parseBody, Layout.leaf]
  by_cases hnull : type = BPLIST_NULL
  · rw [if_pos hnull, if_pos hnull]
    split
    · rfl
    · split <;> rfl
  rw [if_neg hnull, if_neg hnull]
  by_cases huint : type = BPLIST_UINT
  · have hno : hasSizeNode type = false := by rw [huint]; decide
    rw [if_pos huint, if_pos huint]
    by_cases hout : o + 1 <<< size > l.offsetTable
    · rw [if_pos ((hshift hno).mpr hout), if_pos hout]
      rfl
    · rw [if_neg (fun h => hout ((hshift hno).mp h)), if_neg hout, l.parseUintNode_ctx (by omega)]
      rfl
  rw [if_neg huint, if_neg huint]
  by_cases hreal : type = BPLIST_REAL
  · have hno : hasSizeNode type = false := by rw [hreal]; decide
    rw [if_pos hreal, if_pos hreal]
    by_cases hout : o + 1 <<< size > l.offsetTable
    · rw [if_pos ((hshift hno).mpr hout), if_pos hout]
      rfl
    · rw [if_neg (fun h => hout ((hshift hno).mp h)), if_neg hout, parseRealNode, l.parseRealBits_ctx (by omega)]
      rfl
  rw [if_neg hreal, if_neg hreal]
  by_cases hdate : type = BPLIST_DATE
  · have hno : hasSizeNode type = false := by rw [hdate]; decide
    rw [if_pos hdate, if_pos hdate]
    by_cases h3 : size ≠ 3
    · rw [if_pos h3, if_pos h3]
      rfl
    · rw [if_neg h3, if_neg h3]
      by_cases hout : o + 1 <<< size > l.offsetTable
      · rw [if_pos ((hshift hno).mpr hout), if_pos hout]
        rfl
      · rw [if_neg (fun h => hout ((hshift hno).mp h)), if_neg hout, parseDateNode, l.parseRealBits_ctx (by omega)]
        rfl
  rw [if_neg hdate, if_neg hdate]
  by_cases hdata : type = BPLIST_DATA
  · rw [if_pos hdata, if_pos hdata]
    by_cases hout : o + size > l.offsetTable
    · rw [if_pos (hbody.mpr hout), if_pos hout]
      rfl
    · rw [if_neg (fun h => hout (hbody.mp h)), if_neg hout, parseDataNode, Layout.ctx_mem,
        loads_base_add (by omega)]
      rfl
  rw [if_neg hdata, if_neg hdata]
  by_cases hstring : type = BPLIST_STRING
  · rw [if_pos hstring, if_pos hstring]
    by_cases hout : o + size > l.offsetTable
    · rw [if_pos (hbody.mpr hout), if_pos hout]
      rfl
    · rw [if_neg (fun h => hout (hbody.mp h)), if_neg hout, parseStringNode, Layout.ctx_mem,
        loads_base_add (by omega)]
      rfl
  rw [if_neg hstring, if_neg hstring]
  by_cases hunicode : type = BPLIST_UNICODE
  · rw [if_pos hunicode, if_pos hunicode, Layout.ctx_arith]
    by_cases hwrap : A.w64 (size * 2) < size
    · -- the product did not fit, so the exact one is far too large
      have hbig : o + size * 2 > l.offsetTable := by
        rcases hA.w64 (size * 2) with h | ⟨h, -⟩ <;> omega
      rw [if_pos hwrap, if_pos hbig]
      rfl
    · have hw : A.w64 (size * 2) = size * 2 := by
        rcases hA.w64 (size * 2) with h | ⟨h, h'⟩ <;> omega
      have hbody2 := hl.bodyOutside_iff hA hbase (o := o) (by omega) hw
      rw [if_neg hwrap, hw]
      by_cases hout : o + size * 2 > l.offsetTable
      · rw [if_pos (hbody2.mpr hout), if_pos hout]
        rfl
      · rw [if_neg (fun h => hout (hbody2.mp h)), if_neg hout, parseUnicodeNode,
          l.loadUnits_ctx (by omega), ok_bind]
        split <;> rfl
  rw [if_neg hunicode, if_neg hunicode, if_neg hset]
  by_cases huid : type = BPLIST_UID
  · have hno : hasSizeNode type = false := by rw [huid]; decide
    have hs := h16 hno
    have hiff : (l.ctx A base).arith.w64 (base + o + size + 1) > (l.data base).offsetTable ↔
        o + size + 1 > l.offsetTable := by
      rw [Layout.ctx_arith, Layout.data_offsetTable, hA.w64_of_lt (by omega)]
      omega
    rw [if_pos huid, if_pos huid]
    by_cases hout : o + size + 1 > l.offsetTable
    · rw [if_pos (hiff.mpr hout), if_pos hout]
      rfl
    · rw [if_neg (fun h => hout (hiff.mp h)), if_neg hout, l.parseUidNode_ctx (by omega)]
      rfl
  rw [if_neg huid, if_neg huid, if_neg hdict]
  rfl

theorem parseBody_array (atIndex : Nat → ParseState → Parsed) (ho : o ≤ l.offsetTable)
    (hsize : size < 2 ^ 64) (harray : type = BPLIST_SET ∨ type = BPLIST_ARRAY) (st : ParseState) :
    parseBody (l.ctx A base) (l.data base) atIndex type size (base + o) st =
      if o + size > l.offsetTable then .ok (none, st)
      else walkArray atIndex ((List.range size).map fun j => l.ref (o + j * l.refSize)) [] st := by
  have hlt := hl.length_lt
  have ht := hl.table_le
  have hbody := hl.bodyOutside_iff hA hbase (o := o) (by omega) (hA.w64_of_lt hsize)
  have hdispatch : parseBody (l.ctx A base) (l.data base) atIndex type size (base + o) st =
      if bodyOutside (l.ctx A base) (l.data base) (base + o) size then .ok (none, st)
      else parseArrayLoop (l.ctx A base) (l.data base) atIndex (base + o) size 0 [] st := by
    rcases harray with rfl | rfl <;> rfl
  rw [hdispatch]
  by_cases hout : o + size > l.offsetTable
  · rw [if_pos (hbody.mpr hout), if_pos hout]
  · rw [if_neg (fun h => hout (hbody.mp h)), if_neg hout,
      hl.parseArrayLoop_eq hA hbase atIndex (by omega) size 0 (by omega), List.range_eq_range']

theorem parseBody_dict (atIndex : Nat → ParseState → Parsed) (ho : o ≤ l.offsetTable)
    (hsize : size < 2 ^ 64) (st : ParseState) :
    parseBody (l.ctx A base) (l.data base) atIndex BPLIST_DICT size (base + o) st =
      if o + size > l.offsetTable then .ok (none, st)
      else walkDict atIndex ((List.range size).map (l.refPair o size)) [] st := by
  have hlt := hl.length_lt
  have ht := hl.table_le
  have hbody := hl.bodyOutside_iff hA hbase (o := o) (by omega) (hA.w64_of_lt hsize)
  have hdispatch : parseBody (l.ctx A base) (l.data base) atIndex BPLIST_DICT size (base + o) st =
      if bodyOutside (l.ctx A base) (l.data base) (base + o) size then .ok (none, st)
      else parseDictLoop (l.ctx A base) (l.data base) atIndex (base + o) size size 0 [] st := rfl
  rw [hdispatch]
  by_cases hout : o + size > l.offsetTable
  · rw [if_pos (hbody.mpr hout), if_pos hout]
  · rw [if_neg (fun h => hout (hbody.mp h)), if_neg hout,
      hl.parseDictLoop_eq hA hbase atIndex (by omega) (by omega) size 0 (by omega),
      List.range_eq_range']

theorem parseBinNode_eq (atIndex : Nat → ParseState → Parsed) (ho : o < l.offsetTable)
    (st : ParseState) :
    parseBinNode (l.ctx A base) (l.data base) atIndex (base + o) st =
      walkObj atIndex (l.object o) st := by
  rw [parseBinNode, hl.parseHeader_eq hA hbase ho, ok_bind, Layout.object]
  cases hheader : l.header o with
  | none => rfl
  | some h =>
    obtain ⟨type, size, body⟩ := h
    obtain ⟨hbody, hsize, h16⟩ := header_bounds ho hheader
    simp only [Option.map_some]
    by_cases harray : type = BPLIST_SET ∨ type = BPLIST_ARRAY
    · rw [hl.parseBody_array hA hbase atIndex hbody hsize harray, if_pos harray]
      split <;> rfl
    · rw [if_neg harray]
      by_cases hdict : type = BPLIST_DICT
      · rw [if_pos hdict, hdict, hl.parseBody_dict hA hbase atIndex hbody hsize]
        split <;> rfl
      · rw [if_neg hdict, hl.parseBody_leaf hA hbase atIndex hbody hsize h16 harray hdict]
        rfl

theorem objectAddress_eq (i : Nat) :
    objectAddress (l.ctx A base) (l.data base) i =
      .ok (if i ≥ l.numObjects then none
      else if l.uint (l.offsetTable + i * l.offsetSize) l.offsetSize ≥ l.offsetTable then none
      else some (base + l.uint (l.offsetTable + i * l.offsetSize) l.offsetSize)) := by
  have hlt := hl.length_lt
  have ht := hl.table_le
  simp only [objectAddress, Layout.data_numObjects, Layout.ctx_arith, Layout.data_offsetSize,
    Layout.data_offsetTable, Layout.data_data]
  by_cases hi : i ≥ l.numObjects
  · simp only [hi, if_true]
  · have hmul : i * l.offsetSize + l.offsetSize ≤ l.numObjects * l.offsetSize := by
      rw [← Nat.succ_mul]
      exact Nat.mul_le_mul_right _ (by omega)
    have hpos := hl.offsetSize_pos
    have w0 : A.w32 (i * l.offsetSize) = i * l.offsetSize := hA.w32_of_lt (by omega)
    have w1 : A.w64 (base + l.offsetTable + i * l.offsetSize) =
        base + (l.offsetTable + i * l.offsetSize) := by
      rw [hA.w64_of_lt (by omega), Nat.add_assoc]
    have w2 : A.w64 (l.numObjects * l.offsetSize) = l.numObjects * l.offsetSize :=
      hA.w64_of_lt (by omega)
    have w3 : A.w64 (base + l.offsetTable + l.numObjects * l.offsetSize) =
        base + l.offsetTable + l.numObjects * l.offsetSize := hA.w64_of_lt (by omega)
    have hin : ¬(base + (l.offsetTable + i * l.offsetSize) < base + l.offsetTable ∨
        base + (l.offsetTable + i * l.offsetSize) ≥
          base + l.offsetTable + l.numObjects * l.offsetSize) := by
      omega
    simp only [hi, if_false, w0, w1, w2, w3, hin, l.uintAt_ctx hpos
        (show l.offsetTable + i * l.offsetSize + l.offsetSize ≤ l.bytes.length by omega),
      ok_bind]
    obtain ⟨offset, hoffset⟩ : ∃ x, l.uint (l.offsetTable + i * l.offsetSize) l.offsetSize = x :=
      ⟨_, rfl⟩
    have hoff : offset < 2 ^ 64 := by
      rw [← hoffset]
      exact uintToHost_lt _ _ _
    rw [hoffset]
    -- an offset so large that the pointer wraps gives one below the buffer
    rcases hA.w64_add (x := base) (y := offset) (by omega) (hA.w64_of_lt hoff) with h | ⟨hbig, h⟩
    · simp only [h]
      by_cases hout : offset ≥ l.offsetTable
      · rw [if_pos (by omega), if_pos hout]
      · rw [if_neg (by omega), if_neg hout]
    · have hout : offset ≥ l.offsetTable := by omega
      simp only [h, true_or, if_true, hout]

/-- **The code on an object is the walk over the graph.** -/
theorem parseBinNodeAtIndex_eq (fuel : Nat) (path : List Nat) (i : Nat) (st : ParseState) :
    parseBinNodeAtIndex (l.ctx A base) (l.data base) fuel path i st =
      walkAt l.graph fuel path i st := by
  induction fuel generalizing path i st with
  | zero => rfl
  | succ fuel ih =>
    have hrec : parseBinNodeAtIndex (l.ctx A base) (l.data base) fuel (path ++ [i]) =
        walkAt l.graph fuel (path ++ [i]) := by
      funext i' st'
      exact ih (path ++ [i]) i' st'
    rw [parseBinNodeAtIndex, hl.objectAddress_eq hA hbase, ok_bind, walkAt, Layout.graph, hrec]
    by_cases hi : i ≥ l.numObjects
    · rw [if_pos hi, if_pos hi]
    · rw [if_neg hi, if_neg hi]
      by_cases hout : l.uint (l.offsetTable + i * l.offsetSize) l.offsetSize ≥ l.offsetTable
      · simp only [hout, if_true]
      · simp only [hout, if_false]
        rw [hl.parseBinNode_eq hA hbase _ (by omega)]

end Layout.Valid

/-! ## The whole buffer -/

theorem be64_lt (bytes : List UInt8) (o : Nat) : be64 bytes o < 2 ^ 64 := by
  rw [be64, bswap64_eq]
  omega

section Open

variable {build : Build} {widen : Nat → Nat} {bytes : List UInt8}

theorem openLayout_valid (hlen : bytes.length < 2 ^ 32) {l : Layout} {root : Nat}
    (h : openLayout build widen bytes = some (l, root)) :
    l.Valid ∧ l.build = build ∧ l.widen = widen ∧ l.bytes = bytes ∧ root < l.numObjects := by
  simp only [openLayout] at h
  split at h
  · cases h
  split at h
  · cases h
  split at h
  · cases h
  split at h
  · cases h
  split at h
  · cases h
  split at h
  · cases h
  rename_i hshort _ _ hzero hrange htable
  cases h
  have ho := (bytes.getD (bytes.length - 32 + 6) 0).toNat_lt
  have hr := (bytes.getD (bytes.length - 32 + 7) 0).toNat_lt
  simp only [not_or] at hzero
  refine ⟨⟨hlen, ?_, ?_, ?_, ?_, ?_⟩, rfl, rfl, rfl, ?_⟩ <;> dsimp only <;> omega

theorem be64At_base_add {A : Arith} {base o : Nat} (h : o + 8 ≤ bytes.length) :
    (Ctx.mk A build ⟨base, bytes⟩ widen).be64At (base + o) = .ok (be64 bytes o) := by
  rw [Ctx.be64At, loads_base_add h]
  rfl

theorem openBplist_eq (hlen : bytes.length < 2 ^ 32) {A : Arith} (hA : A.Wraps) {base : Nat}
    (hbase : base < 2 ^ 63) :
    openBplist ⟨A, build, ⟨base, bytes⟩, widen⟩ =
      .ok ((openLayout build widen bytes).map fun p => (p.1.data base, p.2)) := by
  simp only [openBplist, openLayout]
  by_cases hshort : bytes.length < 40
  · rw [if_pos (by omega), if_pos hshort]
    rfl
  have w1 : A.w64 (base + 6) = base + 6 := hA.w64_of_lt (by omega)
  have w2 : A.w64 (base + 8) = base + 8 := hA.w64_of_lt (by omega)
  have w3 : A.w64 (base + bytes.length - 32) = base + (bytes.length - 32) := by
    rw [hA.w64_of_lt (by omega)]
    omega
  have wt (k : Nat) (hk : k < 32) : A.w64 (base + (bytes.length - 32) + k) =
      base + (bytes.length - 32 + k) := by
    rw [hA.w64_of_lt (by omega)]
    omega
  have hmagic : (Mem.mk base bytes).loads base 6 = .ok (slice bytes 0 6) :=
    loads_base_add (show 0 + 6 ≤ bytes.length by omega)
  simp only [hshort, ge_iff_le, show 6 + 2 + 32 ≤ bytes.length by omega, not_true, if_false, hmagic,
    ok_bind, w1, w2, w3, wt 6 (by omega), wt 7 (by omega), wt 8 (by omega), wt 16 (by omega),
    wt 24 (by omega), loads_base_add (show 6 + 2 ≤ bytes.length by omega),
    load_base_add (show bytes.length - 32 + 6 < bytes.length by omega),
    load_base_add (show bytes.length - 32 + 7 < bytes.length by omega),
    be64At_base_add (show bytes.length - 32 + 8 + 8 ≤ bytes.length by omega),
    be64At_base_add (show bytes.length - 32 + 16 + 8 ≤ bytes.length by omega),
    be64At_base_add (show bytes.length - 32 + 24 + 8 ≤ bytes.length by omega)]
  obtain ⟨offsetSize, hoffsetSize⟩ : ∃ x, (bytes.getD (bytes.length - 32 + 6) 0).toNat = x :=
    ⟨_, rfl⟩
  obtain ⟨refSize, hrefSize⟩ : ∃ x, (bytes.getD (bytes.length - 32 + 7) 0).toNat = x := ⟨_, rfl⟩
  obtain ⟨numObjects, hnum⟩ : ∃ x, be64 bytes (bytes.length - 32 + 8) = x := ⟨_, rfl⟩
  obtain ⟨root, hroot⟩ : ∃ x, be64 bytes (bytes.length - 32 + 16) = x := ⟨_, rfl⟩
  obtain ⟨table, htable⟩ : ∃ x, be64 bytes (bytes.length - 32 + 24) = x := ⟨_, rfl⟩
  have htable_lt : table < 2 ^ 64 := htable ▸ be64_lt _ _
  rw [hoffsetSize, hrefSize, hnum, hroot, htable]
  by_cases hm : slice bytes 0 6 = BPLIST_MAGIC
  case neg =>
    rw [if_pos hm, if_pos hm]
    rfl
  by_cases hv : slice bytes 6 2 = BPLIST_VERSION
  case neg =>
    rw [if_neg (not_not.mpr hm), if_neg (not_not.mpr hm), if_pos hv, if_pos hv]
    rfl
  simp only [hm, hv, ne_eq, not_true, if_false]
  by_cases hzero : numObjects = 0 ∨ offsetSize = 0 ∨ refSize = 0 ∨ root ≥ numObjects
  · rw [if_pos hzero]
    rcases hzero with h | h | h | h
    · rw [if_pos h]
      rfl
    · rw [if_pos h]
      split <;> rfl
    · rw [if_pos h]
      split
      · rfl
      · split <;> rfl
    · rw [if_pos h]
      split
      · rfl
      · split
        · rfl
        · split <;> rfl
  rw [if_neg hzero]
  simp only [not_or] at hzero
  obtain ⟨h0, h1, h2, h3⟩ := hzero
  rw [if_neg h0, if_neg h1, if_neg h2, if_neg h3]
  -- an offset so large that the pointer wraps gives a table below the buffer
  have hrange : (A.w64 (base + table) < base + 8 ∨
      A.w64 (base + table) ≥ base + (bytes.length - 32)) ↔
      (table < 8 ∨ table ≥ bytes.length - 32) := by
    rcases hA.w64_add (x := base) (y := table) (by omega) (hA.w64_of_lt htable_lt) with h | ⟨_, h⟩
    · rw [h]
      omega
    · omega
  by_cases hout : table < 8 ∨ table ≥ bytes.length - 32
  · rw [if_pos (hrange.mpr hout), if_pos hout]
    rfl
  have hw : A.w64 (base + table) = base + table := hA.w64_of_lt (by omega)
  rw [if_neg (fun h => hout (hrange.mp h)), if_neg hout, hw]
  by_cases hmul : numObjects > (2 ^ 64 - 1) / offsetSize
  · have hbig : 2 ^ 64 - 1 < numObjects * offsetSize :=
      (Nat.div_lt_iff_lt_mul (by omega)).mp hmul
    rw [if_pos hmul, if_pos (by omega)]
    rfl
  · have hsmall : numObjects * offsetSize < 2 ^ 64 := by
      have h := (Nat.le_div_iff_mul_le (by omega)).mp (Nat.le_of_not_lt hmul)
      omega
    rw [if_neg hmul, hA.w64_of_lt hsmall]
    rcases hA.w64_add (x := base + table) (y := numObjects * offsetSize) (by omega)
      (hA.w64_of_lt hsmall) with h | ⟨hbig, h⟩
    · rw [h]
      by_cases htab : table + numObjects * offsetSize > bytes.length - 32
      · rw [if_pos (by omega), if_pos htab]
        rfl
      · rw [if_neg (by omega), if_neg htab]
        rfl
    · rw [if_pos (.inl h), if_pos (by omega)]
      rfl

/-- **The code on a buffer is the walk over its graph**, with either arithmetic and wherever the
buffer is. -/
theorem plistFromBin_eq_walkBin (hlen : bytes.length < 2 ^ 32) {A : Arith} (hA : A.Wraps)
    {base : Nat} (hbase : base < 2 ^ 63) (fuel : Nat) :
    plistFromBin ⟨A, build, ⟨base, bytes⟩, widen⟩ fuel = walkBin build widen bytes fuel := by
  rw [plistFromBin, openBplist_eq hlen hA hbase, ok_bind, walkBin]
  cases hopen : openLayout build widen bytes with
  | none => rfl
  | some p =>
    obtain ⟨l, root⟩ := p
    obtain ⟨hl, rfl, rfl, rfl, hroot⟩ := openLayout_valid hlen hopen
    have hn := hl.numObjects_le
    have hw : A.w32 root = root := hA.w32_of_lt (by omega)
    have hcode := hl.parseBinNodeAtIndex_eq hA hbase fuel [] root ⟨0, [], []⟩
    simp only [Option.map_some, hw]
    exact congrArg (· >>= fun p => .ok (p.1, p.2.calls)) hcode

end Open

/-! ## No read outside -/

/-- The run has not read outside of the buffer. -/
def NoFault {α : Type} (r : Except Stop α) : Prop := ∀ a, r ≠ .error (.fault a)

theorem NoFault.bind {α β : Type} {r : Except Stop α} {f : α → Except Stop β} (hr : NoFault r)
    (hf : ∀ x, NoFault (f x)) : NoFault (r >>= f) := by
  cases r with
  | ok x => exact hf x
  | error e =>
    intro a h
    obtain rfl : e = .fault a := Except.error.inj h
    exact hr a rfl

end IDeviceStack.Libplist.Bplist
