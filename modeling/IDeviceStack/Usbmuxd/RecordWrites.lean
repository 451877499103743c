/-
# `Usbmuxd.RecordWrites` — saving a record on a disk that may fail

`config_set_device_record` once more, on the one file that it writes: `remove`, `fopen` and `fwrite`
may fail here, and a write may end at any byte.

**Proved here.**  `saved_iff`.
-/
import IDeviceStack.Usbmuxd.PairRecords

namespace IDeviceStack.Usbmuxd.RecordWrites

open Libplist Libplist.Xplist
open Usbmuxd.PairRecords (Codec Crash EINVAL ENOENT smallCodec)

/-! ## The files -/

/-- What comes of the file operations. -/
structure FileOutcomes where
  /-- `remove` takes the file away, if there is one. -/
  removes : Bool
  /-- `fopen` for writing. -/
  opens : Bool
  /-- How many bytes reach the file until `fclose`. -/
  written : Nat
  deriving DecidableEq, Repr

def FileOutcomes.remove (o : FileOutcomes) (file : Option (List UInt8)) : Option (List UInt8) :=
  if o.removes then none else file

def bufferWriteToFilename (o : FileOutcomes) (buffer : List UInt8) (file : Option (List UInt8)) :
    Option (List UInt8) :=
  if o.opens then some (buffer.take o.written) else file

/-- `plist_write_to_filename`, with its result. -/
def plistWriteToFilename (codec : Codec) (o : FileOutcomes) (plist : Plist)
    (file : Option (List UInt8)) : Bool × Option (List UInt8) :=
  (true, bufferWriteToFilename o (codec.fileOf plist) file)

/-- `config_set_device_record`: an `errno`, or 0, and what is in the file. -/
def configSetDeviceRecord (codec : Codec) (o : FileOutcomes) (udid data : Option (List UInt8))
    (file : Option (List UInt8)) : Except Crash (Nat × Option (List UInt8)) :=
  match udid, data with
  | some _, some data =>
    match codec.recordPlist data with
    | .error e => .error e
    | .ok none => .ok (EINVAL, file)
    | .ok (some plist) =>
      let (stored, file) := plistWriteToFilename codec o plist (o.remove file)
      .ok (if stored then 0 else ENOENT, file)
  | _, _ => .ok (EINVAL, file)

/-- What `config_get_device_record` makes of the file. -/
def storedRecord (file : Option (List UInt8)) : Option (List UInt8) :=
  file.filter fun data => data ≠ []

/-! ## All or nothing -/

/-- The dictionary that is to be saved, if none of the arguments is refused. -/
def newRecord (codec : Codec) (udid data : Option (List UInt8)) : Option Plist :=
  match udid, data with
  | some _, some data =>
    match codec.recordPlist data with
    | .ok plist => plist
    | .error _ => none
  | _, _ => none

/-- The text of a record. -/
def recordText (codec : Codec) (plist : Plist) : List UInt8 := (plistToXml codec.pconv plist).1

/-- Some of the bytes do not get into the file. -/
def WriteFails (o : FileOutcomes) (buffer : List UInt8) : Prop :=
  o.opens = false ∨ o.written < buffer.length

/-- The call returns 0 only if the file holds the record, and if it fails, or the write does, the old
record can still be read. -/
def Saved (codec : Codec) (o : FileOutcomes) (udid data : Option (List UInt8))
    (file : Option (List UInt8)) : Prop :=
  ∀ res file', configSetDeviceRecord codec o udid data file = .ok (res, file') →
    (res = 0 → ∃ plist, newRecord codec udid data = some plist ∧
      file' = some (recordText codec plist)) ∧
    ((res ≠ 0 ∨ ∃ plist, newRecord codec udid data = some plist ∧
      WriteFails o (recordText codec plist)) →
        ∀ old, storedRecord file = some old → storedRecord file' = some old)

/-- All the bytes are written, or the file has them already and is not touched. -/
def Written (o : FileOutcomes) (file : Option (List UInt8)) (text : List UInt8) : Prop :=
  (o.opens = true ∧ text.length ≤ o.written ∧ text.length < 2 ^ 32) ∨
    (o.opens = false ∧ o.removes = false ∧ file = some text)

section Saving

variable {codec : Codec} {o : FileOutcomes} {udid data file : Option (List UInt8)}

theorem configSetDeviceRecord_new {plist : Plist} (h : newRecord codec udid data = some plist) :
    configSetDeviceRecord codec o udid data file =
      .ok (0, bufferWriteToFilename o (codec.fileOf plist) (o.remove file)) := by
  cases udid with
  | none => cases h
  | some udid =>
    cases data with
    | none => cases h
    | some data =>
      cases hread : codec.recordPlist data with
      | error e => simp [newRecord, hread] at h
      | ok read =>
        have hsome : read = some plist := by simpa [newRecord, hread] using h
        simp [configSetDeviceRecord, hread, hsome, plistWriteToFilename]

theorem configSetDeviceRecord_refused (h : newRecord codec udid data = none) {res : Nat}
    {file' : Option (List UInt8)}
    (hrun : configSetDeviceRecord codec o udid data file = .ok (res, file')) :
    res = EINVAL ∧ file' = file := by
  cases udid with
  | none =>
    cases hrun
    exact ⟨rfl, rfl⟩
  | some udid =>
    cases data with
    | none =>
      cases hrun
      exact ⟨rfl, rfl⟩
    | some data =>
      cases hread : codec.recordPlist data with
      | error e => simp [configSetDeviceRecord, hread] at hrun
      | ok read =>
        have hnone : read = none := by simpa [newRecord, hread] using h
        rw [hnone] at hread
        simp only [configSetDeviceRecord, hread, Except.ok.injEq, Prod.mk.injEq] at hrun
        exact ⟨hrun.1.symm, hrun.2.symm⟩

theorem fileOf_eq (codec : Codec) (plist : Plist) : codec.fileOf plist =
    (recordText codec plist).take ((recordText codec plist).length % 2 ^ 32) := rfl

theorem written_iff (plist : Plist) :
    bufferWriteToFilename o (codec.fileOf plist) (o.remove file) =
        some (recordText codec plist) ↔ Written o file (recordText codec plist) := by
  rw [bufferWriteToFilename, FileOutcomes.remove, fileOf_eq, List.take_take, Written]
  cases o.opens with
  | false => cases o.removes <;> simp
  | true =>
    simp only [if_true, Option.some.injEq, List.take_eq_self_iff, true_and, Bool.true_eq_false,
      false_and, or_false]
    omega

/-- **Saving a record.**  It is all or nothing exactly if the data is refused or the file is
written. -/
theorem saved_iff (codec : Codec) (o : FileOutcomes) (udid data file : Option (List UInt8)) :
    Saved codec o udid data file ↔
      ∀ plist, newRecord codec udid data = some plist →
        Written o file (recordText codec plist) := by
  cases hnew : newRecord codec udid data with
  | none =>
    refine iff_of_true ?_ fun _ h => nomatch h
    intro res file' hrun
    obtain ⟨rfl, rfl⟩ := configSetDeviceRecord_refused hnew hrun
    exact ⟨fun h => absurd h (by decide), fun _ old hold => hold⟩
  | some plist =>
    have hrun : configSetDeviceRecord codec o udid data file =
        .ok (0, bufferWriteToFilename o (codec.fileOf plist) (o.remove file)) :=
      configSetDeviceRecord_new hnew
    constructor
    · rintro hsaved _ ⟨⟩
      obtain ⟨plist', hplist, hfile⟩ := (hsaved _ _ hrun).1 rfl
      rw [hnew] at hplist
      cases hplist
      exact (written_iff plist).1 hfile
    · intro hwritten res file' hrun'
      rw [hrun] at hrun'
      cases hrun'
      have hfile := (written_iff plist).2 (hwritten plist rfl)
      refine ⟨fun _ => ⟨plist, hnew, hfile⟩, ?_⟩
      rintro (hres | ⟨plist', hplist, hfails⟩) old hold
      · exact absurd rfl hres
      · rw [hnew] at hplist
        cases hplist
        rcases hwritten plist rfl with ⟨hopens, hlen, -⟩ | ⟨-, -, hsame⟩
        · rcases hfails with hclosed | hshort
          · rw [hopens] at hclosed
            cases hclosed
          · exact absurd hlen (Nat.not_le.2 hshort)
        · rw [hfile, ← hsame]
          exact hold

end Saving

/-- A full disk: the old record is gone, the file is empty, and the call returns 0. -/
theorem saved_refuted :
    configSetDeviceRecord smallCodec ⟨true, true, 0⟩ (some (lit "abc"))
        (some (lit "<plist><dict/></plist>")) (some [60]) = .ok (0, some []) ∧
      ¬ Saved smallCodec ⟨true, true, 0⟩ (some (lit "abc")) (some (lit "<plist><dict/></plist>"))
        (some [60]) := by
  have hrun : configSetDeviceRecord smallCodec ⟨true, true, 0⟩ (some (lit "abc"))
      (some (lit "<plist><dict/></plist>")) (some [60]) = .ok (0, some []) := rfl
  refine ⟨hrun, fun hsaved => ?_⟩
  obtain ⟨plist, -, hfile⟩ := (hsaved 0 (some []) hrun).1 rfl
  have htext : recordText smallCodec plist = [] := (Option.some.inj hfile).symm
  have hlen := congrArg List.length htext
  rw [recordText, plistToXml, List.length_append, List.length_append, xmlPlistProlog_length] at hlen
  simp at hlen

end IDeviceStack.Usbmuxd.RecordWrites
