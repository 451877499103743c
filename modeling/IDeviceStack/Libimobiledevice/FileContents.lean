/-
# `Libimobiledevice.FileContents` — a file of the device in memory

`mobilebackup_afc_get_file_contents` of `idevicebackup2.c`: the size of a file is asked for, a
buffer of that size is allocated, and the file is read in pieces of at most 64 KiB.

* The answers of the device are arguments: what it tells about the file, whether it opens it,
  and the bytes of each reply, which `afc_file_read` cuts off at what was asked for.  A read
  that fails brings nothing.
* What is told about the file has a value for each key, and memory is not short.
* A `long` has `longBits` bits.
* A byte that is written behind the end of the buffer is a fault.

**Proved here.**  `contentsRight_iff`.
-/
import IDeviceStack.Lib.Endian
import IDeviceStack.Libplist.Xplist.Scan

namespace IDeviceStack.Libimobiledevice

open Libplist Libplist.Xplist

namespace FileContents

/-! ## Numbers -/

def isSpace (c : UInt8) : Bool := c = 32 ∨ 9 ≤ c ∧ c ≤ 13

def isDigit (c : UInt8) : Bool := 48 ≤ c ∧ c ≤ 57

/-- The number in front of a text, without a sign. -/
def digitsValue (text : List UInt8) : Nat :=
  (text.takeWhile isDigit).foldl (fun n c => 10 * n + (c.toNat - 48)) 0

/-- The number that a text stands for. -/
def numberOf (text : List UInt8) : Int :=
  match text.dropWhile isSpace with
  | 45 :: rest => -(digitsValue rest : Int)
  | 43 :: rest => digitsValue rest
  | rest => digitsValue rest

/-- `atol`: a number that a `long` does not hold becomes the one next to it that it holds. -/
def atol (longBits : Nat) (text : List UInt8) : Int :=
  max (-2 ^ (longBits - 1)) (min (2 ^ (longBits - 1) - 1) (numberOf text))

/-! ## The program -/

/-- The buffer is too small. -/
inductive BufferFault where
  | overflow
  deriving DecidableEq, Repr

/-- What the device answers. -/
structure FileAnswers where
  /-- `afc_get_file_info`: the keys and their values. -/
  fileinfo : Option (List (List UInt8 × List UInt8))
  opens : Bool
  /-- The replies to the reads. -/
  reads : Nat → List UInt8
  reads_le : ∀ turn, (reads turn).length ≤ 65536

/-- The text of `st_size`. -/
def FileAnswers.sizeText (x : FileAnswers) : Option (List UInt8) :=
  (x.fileinfo.bind (List.find? fun e => e.1 = lit "st_size")).map Prod.snd

def FileAnswers.fsize (longBits : Nat) (x : FileAnswers) : Nat :=
  match x.sizeText with
  | none => 0
  | some text => (atol longBits text % 2 ^ 32).toNat

/-- The loop of `mobilebackup_afc_get_file_contents`, with the `done` bytes that are in the
buffer. -/
def readLoop (reads : Nat → List UInt8) (fsize turn : Nat) (buf : List UInt8) :
    Except BufferFault (List UInt8) :=
  if _ : buf.length < fsize then
    if _ : reads turn = [] then .ok buf
    else if fsize < buf.length + (reads turn).length then .error .overflow
    else readLoop reads fsize (turn + 1) (buf ++ reads turn)
  else .ok buf
termination_by fsize - buf.length
decreasing_by
  have hpos : 0 < (reads turn).length := List.length_pos_iff.mpr ‹_›
  rw [List.length_append]
  omega

/-- `mobilebackup_afc_get_file_contents`: `*data` and `*size`, if they are set. -/
def mobilebackupAfcGetFileContents (longBits : Nat) (x : FileAnswers) :
    Except BufferFault (Option (List UInt8 × Nat)) :=
  let fsize := x.fsize longBits
  if fsize = 0 then .ok none
  else if !x.opens then .ok none
  else do
    let buf ← readLoop x.reads fsize 0 []
    .ok (if buf.length = fsize then some (buf, fsize) else none)

/-! ## What is read -/

/-- What the replies before a turn bring. -/
def FileAnswers.received (x : FileAnswers) : Nat → List UInt8
  | 0 => []
  | turn + 1 => received x turn ++ x.reads turn

/-- The file is read up to a turn: it has a size and is opened, no reply before is empty, and they
leave something to ask for. -/
structure FileAnswers.Reads (longBits : Nat) (x : FileAnswers) (turn : Nat) : Prop where
  opens : x.opens = true
  brings : ∀ i < turn, x.reads i ≠ [] ∧ (x.received i).length < x.fsize longBits
  wanted : 0 < x.fsize longBits

/-- Nothing is written behind the buffer, and what is returned are the replies, as many bytes of
them as the device said. -/
structure ContentsRight (longBits : Nat) (x : FileAnswers) : Prop where
  inside : ∃ r, mobilebackupAfcGetFileContents longBits x = .ok r
  whole : ∀ data size, mobilebackupAfcGetFileContents longBits x = .ok (some (data, size)) →
    (∃ turn, data = x.received turn) ∧ data.length = size ∧
      ∃ text, x.sizeText = some text ∧ (size : Int) = numberOf text

/-! ## The loop -/

section Loop

variable {longBits : Nat} {x : FileAnswers}

theorem readLoop_next {turn : Nat} (hleft : (x.received turn).length < x.fsize longBits)
    (hbrings : x.reads turn ≠ []) (hroom : (x.received (turn + 1)).length ≤ x.fsize longBits) :
    readLoop x.reads (x.fsize longBits) turn (x.received turn) =
      readLoop x.reads (x.fsize longBits) (turn + 1) (x.received (turn + 1)) := by
  rw [FileAnswers.received, List.length_append] at hroom
  rw [readLoop, dif_pos hleft, dif_neg hbrings, if_neg (by omega)]
  rfl

/-- **The loop ends**: in a turn without bytes, with all bytes, or in a turn with too many. -/
theorem readLoop_ends (longBits : Nat) (x : FileAnswers) (turn : Nat) :
    ∃ k, turn ≤ k ∧
      (∀ i, turn ≤ i → i < k → x.reads i ≠ [] ∧ (x.received i).length < x.fsize longBits ∧
        (x.received (i + 1)).length ≤ x.fsize longBits) ∧
      (¬ (x.reads k ≠ [] ∧ (x.received k).length < x.fsize longBits) ∧
          readLoop x.reads (x.fsize longBits) turn (x.received turn) = .ok (x.received k) ∨
        x.reads k ≠ [] ∧ (x.received k).length < x.fsize longBits ∧
          x.fsize longBits < (x.received (k + 1)).length ∧
          readLoop x.reads (x.fsize longBits) turn (x.received turn) = .error .overflow) := by
  induction hn : x.fsize longBits - (x.received turn).length using Nat.strong_induction_on
    generalizing turn with
  | _ n ih =>
    have hself : ∀ i, turn ≤ i → i < turn → x.reads i ≠ [] ∧
        (x.received i).length < x.fsize longBits ∧
        (x.received (i + 1)).length ≤ x.fsize longBits := fun i hi hlt => absurd hi (by omega)
    by_cases hleft : (x.received turn).length < x.fsize longBits
    · by_cases hbrings : x.reads turn = []
      · refine ⟨turn, Nat.le_refl _, hself, .inl ⟨fun h => h.1 hbrings, ?_⟩⟩
        rw [readLoop, dif_pos hleft, dif_pos hbrings]
      have hpos := List.length_pos_iff.mpr hbrings
      have hnext : (x.received (turn + 1)).length =
          (x.received turn).length + (x.reads turn).length := List.length_append
      by_cases hroom : x.fsize longBits < (x.received (turn + 1)).length
      · refine ⟨turn, Nat.le_refl _, hself, .inr ⟨hbrings, hleft, hroom, ?_⟩⟩
        rw [readLoop, dif_pos hleft, dif_neg hbrings, if_pos (by omega)]
      · obtain ⟨k, hk, hall, hend⟩ := ih _ (by omega) (turn + 1) rfl
        rw [← readLoop_next hleft hbrings (by omega)] at hend
        refine ⟨k, by omega, fun i hi hik => ?_, hend⟩
        rcases Nat.eq_or_lt_of_le hi with rfl | hi
        · exact ⟨hbrings, hleft, by omega⟩
        · exact hall i hi hik
    · refine ⟨turn, Nat.le_refl _, hself, .inl ⟨fun h => hleft h.2, ?_⟩⟩
      rw [readLoop, dif_neg hleft]

end Loop

section Results

variable {longBits : Nat} {x : FileAnswers}

theorem atol_eq_iff (longBits : Nat) (text : List UInt8) :
    ((atol longBits text % 2 ^ 32).toNat : Int) = numberOf text ↔
      0 ≤ numberOf text ∧ numberOf text < 2 ^ 32 ∧ numberOf text < 2 ^ (longBits - 1) := by
  have hpos : (0 : Int) < 2 ^ (longBits - 1) := by positivity
  rw [atol]
  generalize numberOf text = n
  generalize (2 : Int) ^ (longBits - 1) = m at hpos
  rw [Int.toNat_of_nonneg (Int.emod_nonneg _ (by decide))]
  constructor
  · intro h
    omega
  · rintro ⟨h0, h32, hm⟩
    omega

theorem mobilebackupAfcGetFileContents_none (h : x.fsize longBits = 0 ∨ x.opens = false) :
    mobilebackupAfcGetFileContents longBits x = .ok none := by
  simp only [mobilebackupAfcGetFileContents]
  by_cases hsize : x.fsize longBits = 0
  · rw [if_pos hsize]
  · rw [if_neg hsize, h.resolve_left hsize]
    rfl

/-- **Reading a file into memory.**  Nothing is written behind the buffer, and what is returned is
as long as the device said, exactly if no reply brings more than what is missing, and if the size is
one that the code keeps whenever it is reached. -/
theorem contentsRight_iff (longBits : Nat) (x : FileAnswers) : ContentsRight longBits x ↔
    ∀ k, x.Reads longBits k →
      (x.received k).length ≤ x.fsize longBits ∧
        ((x.received k).length = x.fsize longBits → ∃ text, x.sizeText = some text ∧
          0 ≤ numberOf text ∧ numberOf text < 2 ^ 32 ∧ numberOf text < 2 ^ (longBits - 1)) := by
  by_cases hnone : x.fsize longBits = 0 ∨ x.opens = false
  · have hrun := mobilebackupAfcGetFileContents_none hnone
    refine iff_of_true ⟨⟨_, hrun⟩, fun data size h => nomatch hrun.symm.trans h⟩ fun k hk => ?_
    rcases hnone with h | h
    · exact absurd hk.wanted (by omega)
    · exact absurd (hk.opens.symm.trans h) nofun
  obtain ⟨hsize, hopens⟩ := not_or.mp hnone
  rw [Bool.not_eq_false] at hopens
  obtain ⟨k, -, hall, hend⟩ := readLoop_ends longBits x 0
  rcases hend with ⟨hstop, hloop⟩ | ⟨hbrings, hleft, hlong, hloop⟩
  · have hrun : mobilebackupAfcGetFileContents longBits x =
        .ok (if (x.received k).length = x.fsize longBits then
          some (x.received k, x.fsize longBits) else none) := by
      simp only [mobilebackupAfcGetFileContents, if_neg hsize, hopens]
      exact congrArg (· >>= _) hloop
    constructor
    · intro h l hl
      rcases Nat.lt_trichotomy l k with hlk | rfl | hkl
      · have hlt := (hall l (Nat.zero_le _) hlk).2.1
        exact ⟨by omega, fun heq => absurd hlt (by omega)⟩
      · refine ⟨?_, fun heq => ?_⟩
        · cases l with
          | zero => exact Nat.zero_le _
          | succ l => exact (hall l (Nat.zero_le _) (Nat.lt_succ_self l)).2.2
        · rw [if_pos heq] at hrun
          obtain ⟨-, -, text, htext, hnumber⟩ := h.whole _ _ hrun
          rw [FileAnswers.fsize, htext] at hnumber
          exact ⟨text, htext, (atol_eq_iff longBits text).mp hnumber⟩
      · exact absurd (hl.brings k hkl) hstop
    · intro h
      refine ⟨⟨_, hrun⟩, fun data size heq => ?_⟩
      have hreads : x.Reads longBits k :=
        ⟨hopens, fun i hi => ⟨(hall i (Nat.zero_le _) hi).1, (hall i (Nat.zero_le _) hi).2.1⟩,
          Nat.pos_of_ne_zero hsize⟩
      have hresult := Except.ok.inj (hrun.symm.trans heq)
      split at hresult
      · rename_i hlength
        cases hresult
        obtain ⟨text, htext, hnumber⟩ := (h k hreads).2 hlength
        refine ⟨⟨k, rfl⟩, hlength, text, htext, ?_⟩
        rw [FileAnswers.fsize, htext]
        exact (atol_eq_iff longBits text).mpr hnumber
      · cases hresult
  · refine iff_of_false ?_ ?_
    · rintro ⟨⟨r, hr⟩, -⟩
      simp only [mobilebackupAfcGetFileContents, if_neg hsize, hopens] at hr
      rw [show readLoop x.reads (x.fsize longBits) 0 [] = .error .overflow from hloop] at hr
      cases hr
    · intro h
      have hle := (h (k + 1) ⟨hopens, fun i hi => ?_, Nat.pos_of_ne_zero hsize⟩).1
      · omega
      · rcases Nat.lt_succ_iff_lt_or_eq.mp hi with hi | rfl
        · exact ⟨(hall i (Nat.zero_le _) hi).1, (hall i (Nat.zero_le _) hi).2.1⟩
        · exact ⟨hbrings, hleft⟩

/-- A file of one byte that has become two bytes long. -/
def grownFile : FileAnswers where
  fileinfo := some [(lit "st_size", lit "1")]
  opens := true
  reads _ := [0, 0]
  reads_le _ := by decide

theorem contents_refuted : ¬ ∀ longBits x, ContentsRight longBits x := by
  intro hall
  obtain ⟨r, hr⟩ := (hall 64 grownFile).inside
  have hsize : grownFile.fsize 64 = 1 := by decide +kernel
  have hloop : readLoop grownFile.reads 1 0 [] = .error .overflow := by
    rw [readLoop]
    rfl
  simp only [mobilebackupAfcGetFileContents, hsize, hloop] at hr
  cases hr

end Results

end FileContents

end IDeviceStack.Libimobiledevice
