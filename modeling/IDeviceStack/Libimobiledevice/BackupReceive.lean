/-
# `Libimobiledevice.BackupReceive` — the files that a backup uploads

`mb2_handle_receive_files` of `idevicebackup2.c`, over `mobilebackup2_receive_raw`.  The device
sends entries: the names of a directory and of a file, then records, which are a length, a code and
the payload.  Blocks of the file come as `CODE_FILE_DATA`, and a record with another code closes the
entry.  A name of length zero closes the upload.

* The transport is that of `PropertyListService`: lossless, in pieces of any size.  At the end of the
  stream a read brings nothing; where the code waits for more, the call does not return
  (`ReceptionFault.waiting`).
* Which calls of `fopen` succeed is a parameter.  What is written to a file reaches it.
* Nobody asks the tool to quit, and the progress that it prints is left out.

**Proved here.**  `receiveFiles_correct`, `receiveFiles_empty_message`.
-/
import IDeviceStack.Lib.Fault
import IDeviceStack.Libimobiledevice.PropertyListService

namespace IDeviceStack.Libimobiledevice

open Lib Libplist Libplist.Xplist List

/-! ## The code -/

def CODE_SUCCESS : UInt8 := 0x00

def CODE_ERROR_REMOTE : UInt8 := 0x0b

def CODE_FILE_DATA : UInt8 := 0x0c

def stringBuildPath (elem : List UInt8) (args : List (List UInt8)) : List UInt8 :=
  args.foldl (fun out arg => out ++ 47 :: cstr arg) (cstr elem)

/-- What is done to the files, and the response. -/
inductive FileCall where
  | remove (path : List UInt8)
  /-- `fopen` fails. -/
  | refused (path : List UInt8)
  /-- The file is opened, gets this content and is closed. -/
  | saved (path content : List UInt8)
  | statusResponse
  deriving DecidableEq, Repr

/-- Where the reception stands: the position in the stream, `r`, `file_count`, the calls of `fopen`
so far, and what was done. -/
structure Reception where
  pos : Nat
  r : Nat
  fileCount : Nat
  tries : Nat
  log : List FileCall

/-- How the reception goes wrong. -/
inductive ReceptionFault where
  /-- A write behind the end of a buffer. -/
  | overrun
  /-- The code waits for bytes that do not come. -/
  | waiting
  deriving DecidableEq, Repr

/-- A part of the reception. -/
abbrev Receiving := Prog Reception ReceptionFault

section Code

variable (seg : Segmentation) (stream : List UInt8)

/-- `mobilebackup2_receive_raw`, for a buffer of `size` bytes.  If nothing is asked for, the call is
refused, and `*bytes` stays as it is. -/
def mobilebackup2ReceiveRaw (size length : Nat) : Receiving (Option (List UInt8)) := fun s =>
  if length = 0 then .ok (none, s)
  else
    let (data, pos) := receiveBody seg stream length length s.pos []
    if size < data.length then .error .overrun
    else .ok (some data, { s with pos := pos })

/-- The bytes of an integer that was zero before. -/
def filled (size : Nat) (data : List UInt8) : List UInt8 :=
  data ++ List.replicate (size - data.length) 0

/-- The rest of `mb2_receive_filename`, when the length is known; `none` stands for 0. -/
def receiveName (nlen : Nat) : Receiving (Option (List UInt8)) := do
  let filename ← mobilebackup2ReceiveRaw seg stream (nlen + 1) nlen
  if (filename.getD []).length = nlen ∧ nlen ≠ 0 then return filename else return none

def mb2ReceiveFilename : Receiving (Option (List UInt8)) := do
  let data ← mobilebackup2ReceiveRaw seg stream 4 4
  let rlen := (data.getD []).length
  let nlen := beVal (filled 4 (data.getD []))
  if nlen = 0 ∧ rlen = 4 then return none
  else if rlen = 0 then throw .waiting
  else if 4096 < nlen then return none
  else receiveName seg stream nlen

/-- A call that leaves the number of bytes in `r`. -/
def receiveR (size length : Nat) : Receiving (List UInt8) := do
  let data ← mobilebackup2ReceiveRaw seg stream size length
  modify fun s => { s with r := (data.map List.length).getD s.r }
  return data.getD []

/-- `sizeof(buf)`. -/
def bufSize : Nat := 32768

/-- The loop on the data of a block; `content` is what the file has got so far. -/
def receiveBlock (blocksize : Nat) : Nat → Nat → List UInt8 → Receiving (List UInt8)
  | 0, _, content => pure content
  | fuel + 1, bdone, content =>
    if bdone < blocksize then do
      let rlen := if blocksize - bdone < bufSize then blocksize - bdone else bufSize
      let data ← receiveR seg stream bufSize rlen
      if data = [] then return content
      else receiveBlock blocksize fuel (bdone + data.length) (content ++ data)
    else pure content

/-- `nlen-1`, as an `uint32_t`. -/
def pred32 (nlen : Nat) : Nat := (nlen + (2 ^ 32 - 1)) % 2 ^ 32

/-- The loop on the blocks: the length and the code that end it, and the content. -/
def receiveBlocks : Nat → Nat → UInt8 → List UInt8 → Receiving (Nat × UInt8 × List UInt8)
  | 0, _, _, _ => throw .waiting
  | fuel + 1, nlen, code, content =>
    if code = CODE_FILE_DATA then do
      let content ← receiveBlock seg stream (pred32 nlen) (pred32 nlen) 0 content
      let data ← receiveR seg stream 4 4
      let nlen := beVal (filled 4 data)
      if 0 < nlen then do
        let next ← receiveR seg stream 1 1
        receiveBlocks fuel nlen (next.headD code) content
      else return (nlen, code, content)
    else return (nlen, code, content)

/-- The message of an error, in a buffer of `nlen` bytes that gets a terminator. -/
def receiveMessage (nlen : Nat) : Receiving Unit := do
  let _ ← receiveR seg stream nlen (nlen - 1)
  let s ← get
  if s.r < nlen then return () else throw .overrun

/-- How a turn of the main loop ends. -/
inductive TurnEnd where
  | again
  /-- The loop is left with this `nlen`, and with `bname` if there is one. -/
  | leave (nlen : Nat) (bname : List UInt8)

variable (canOpen : Nat → Bool)

/-- The file is removed and opened for writing. -/
def openFile (bname : List UInt8) : Receiving Bool := fun s =>
  .ok (canOpen s.tries, { s with tries := s.tries + 1, log := s.log ++ [.remove bname] })

/-- The file is closed, if it was opened. -/
def closeFile (bname : List UInt8) (f : Bool) (content : List UInt8) : Receiving Unit :=
  modify fun s =>
    if f then { s with fileCount := s.fileCount + 1, log := s.log ++ [.saved bname content] }
    else { s with log := s.log ++ [.refused bname] }

/-- What is left to do when the file is closed. -/
def closeEntry (bname : List UInt8) (nlen : Nat) (code : UInt8) : Receiving TurnEnd :=
  if nlen = 0 then return .leave 0 bname
  else if code = CODE_ERROR_REMOTE then do
    receiveMessage seg stream nlen
    return .again
  else return .again

/-- The blocks are received only if the file is open. -/
def receiveContent (f : Bool) (nlen : Nat) (code : UInt8) : Receiving (Nat × UInt8 × List UInt8) :=
  if f then receiveBlocks seg stream (stream.length + 1) nlen code [] else pure (nlen, code, [])

/-- A turn, from the first code on. -/
def storeFile (bname : List UInt8) (nlen : Nat) (code : UInt8) : Receiving TurnEnd := do
  let f ← openFile canOpen bname
  let (nlen, code, content) ← receiveContent seg stream f nlen code
  closeFile bname f content
  closeEntry seg stream bname nlen code

/-- A turn, from the first length on. -/
def receiveFile (bname : List UInt8) : Receiving TurnEnd := do
  let data ← receiveR seg stream 4 4
  if data.length ≠ 4 then return .leave (leVal (filled 4 data)) bname
  else do
    let first ← receiveR seg stream 1 1
    match first with
    | [] => return .leave (beVal data) bname
    | code :: _ => storeFile seg stream canOpen bname (beVal data) code

variable (backupDir : List UInt8)

/-- A turn, behind the name of the directory. -/
def receiveNamed : Receiving TurnEnd := do
  let fname ← mb2ReceiveFilename seg stream
  match fname with
  | none => return .leave 0 []
  | some fname => receiveFile seg stream canOpen (stringBuildPath backupDir [fname])

/-- A turn of the main loop. -/
def receiveEntry : Receiving TurnEnd := do
  let dname ← mb2ReceiveFilename seg stream
  match dname with
  | none => return .leave 0 []
  | some _ => receiveNamed seg stream canOpen backupDir

/-- The main loop: `nlen` and `bname` as they are left. -/
def mb2ReceiveLoop : Nat → Receiving (Nat × List UInt8)
  | 0 => throw .waiting
  | fuel + 1 => do
      let turn ← receiveEntry seg stream canOpen backupDir
      match turn with
      | .again => mb2ReceiveLoop fuel
      | .leave nlen bname => return (nlen, bname)

/-- What is left of a record is read, and the file is removed. -/
def discardLeftovers (nlen : Nat) (bname : List UInt8) : Receiving Unit :=
  if 2 ≤ nlen ∧ nlen < 2 ^ 31 then do
    let _ ← receiveR seg stream (nlen - 1) (nlen - 1)
    modify fun s => { s with log := s.log ++ [.remove bname] }
  else pure ()

/-- `mb2_handle_receive_files`.  Of the message it counts how many items it has, if it is an
array. -/
def mb2HandleReceiveFiles (message : Option Nat) : Receiving Nat :=
  if message.getD 0 < 4 then return 0
  else do
    let (nlen, bname) ← mb2ReceiveLoop seg stream canOpen backupDir (stream.length + 1)
    discardLeftovers seg stream nlen bname
    modify fun s => { s with log := s.log ++ [.statusResponse] }
    let s ← get
    return s.fileCount

end Code

/-! ## What the device sends -/

/-- A name with its length. -/
def sentName (name : List UInt8) : List UInt8 := beBytes 4 name.length ++ name

/-- A record. -/
def sentRecord (code : UInt8) (payload : List UInt8) : List UInt8 :=
  beBytes 4 (payload.length + 1) ++ code :: payload

/-- A file of an upload.  It is closed with a success, or with the message of an error. -/
structure Entry where
  dname : List UInt8
  fname : List UInt8
  blocks : List (List UInt8)
  error : Option (List UInt8)

/-- The code of the record that closes an entry. -/
def Entry.code (e : Entry) : UInt8 := if e.error.isSome then CODE_ERROR_REMOTE else CODE_SUCCESS

/-- Its payload. -/
def Entry.message (e : Entry) : List UInt8 := e.error.getD []

/-- The records of an entry. -/
def Entry.records (e : Entry) : List UInt8 :=
  (e.blocks.map (sentRecord CODE_FILE_DATA)).flatten ++ sentRecord e.code e.message

def Entry.sent (e : Entry) : List UInt8 := sentName e.dname ++ (sentName e.fname ++ e.records)

/-- The upload. -/
def upload (entries : List Entry) : List UInt8 := (entries.map Entry.sent).flatten ++ beBytes 4 0

/-- The names are there, and the lengths fit in their fields. -/
structure Entry.Encodable (e : Entry) : Prop where
  dname_ne : e.dname ≠ []
  fname_ne : e.fname ≠ []
  dname_lt : e.dname.length < 2 ^ 32
  fname_lt : e.fname.length < 2 ^ 32
  blocks_lt : ∀ block ∈ e.blocks, block.length + 1 < 2 ^ 32
  error_lt : ∀ message ∈ e.error, message.length + 1 < 2 ^ 32

/-- What should be done for an entry whose file can be opened or not. -/
def Entry.calls (backupDir : List UInt8) (f : Bool) (e : Entry) : List FileCall :=
  let bname := stringBuildPath backupDir [e.fname]
  [.remove bname, if f then .saved bname e.blocks.flatten else .refused bname]

/-- What should be done for entries, `tries` files being behind. -/
def expectedCalls (canOpen : Nat → Bool) (backupDir : List UInt8) :
    Nat → List Entry → List FileCall
  | _, [] => []
  | tries, e :: entries =>
    e.calls backupDir (canOpen tries) ++ expectedCalls canOpen backupDir (tries + 1) entries

/-- **The purpose.**  An upload that starts at `pos` is received: all of it is used, nothing behind
it is, the files are as they were sent, and the device gets one response. -/
def UploadReceived (seg : Segmentation) (stream : List UInt8) (canOpen : Nat → Bool)
    (backupDir : List UInt8) (message : Option Nat) (pos : Nat) (entries : List Entry) : Prop :=
  ∃ count s,
    mb2HandleReceiveFiles seg stream canOpen backupDir message ⟨pos, 0, 0, 0, []⟩ = .ok (count, s) ∧
    s.pos = pos + (upload entries).length ∧
    s.log = expectedCalls canOpen backupDir 0 entries ++ [.statusResponse]

/-- What an entry must not have: a long name, or an empty message. -/
structure Entry.Modest (e : Entry) : Prop where
  dname_le : e.dname.length ≤ 4096
  fname_le : e.fname.length ≤ 4096
  error_ne : e.error ≠ some []

/-- The files that cannot be opened have no blocks. -/
def UnopenedEmpty (canOpen : Nat → Bool) (tries : Nat) (entries : List Entry) : Prop :=
  ∀ k e, entries[k]? = some e → canOpen (tries + k) = false → e.blocks = []

/-! ## Single calls -/

section Calls

variable (seg : Segmentation) {stream rest body : List UInt8} {s : Reception}

theorem receiveRaw_eq (size : Nat) (hbody : body ≠ []) (hsize : body.length ≤ size)
    (hdrop : stream.drop s.pos = body ++ rest) :
    mobilebackup2ReceiveRaw seg stream size body.length s =
      .ok (some body, { s with pos := s.pos + body.length }) := by
  have hread : receiveBody seg stream ([].length + body.length) body.length s.pos [] =
      ([] ++ body, s.pos + body.length) := receiveBody_eq (Nat.le_refl _) hdrop
  rw [length_nil, Nat.zero_add, nil_append] at hread
  have hne : body.length ≠ 0 := fun h => hbody (length_eq_zero_iff.mp h)
  rw [mobilebackup2ReceiveRaw, if_neg hne, hread]
  simp only
  rw [if_neg (by omega)]

theorem receiveR_eq (size : Nat) (hbody : body ≠ []) (hsize : body.length ≤ size)
    (hdrop : stream.drop s.pos = body ++ rest) :
    receiveR seg stream size body.length s =
      .ok (body, { s with pos := s.pos + body.length, r := body.length }) := by
  rw [receiveR, bind_eq_of_ok (receiveRaw_eq seg size hbody hsize hdrop)]
  rfl

theorem drop_behind {pos n : Nat} (hdrop : stream.drop pos = body ++ rest)
    (hn : n = body.length) : stream.drop (pos + n) = rest := by
  rw [← drop_drop, hdrop, hn, drop_left' rfl]

theorem beBytes_four_ne_nil (n : Nat) : beBytes 4 n ≠ [] := by
  rw [← length_pos_iff, length_beBytes]
  decide

theorem filled_beBytes (n : Nat) : filled 4 (beBytes 4 n) = beBytes 4 n := by
  rw [filled, length_beBytes]
  exact append_nil _

theorem beVal_filled {n : Nat} (hn : n < 2 ^ 32) : beVal (filled 4 (beBytes 4 n)) = n := by
  rw [filled_beBytes]
  exact beVal_beBytes hn

theorem receiveR_length {n : Nat} (hdrop : stream.drop s.pos = beBytes 4 n ++ rest) :
    receiveR seg stream 4 4 s = .ok (beBytes 4 n, { s with pos := s.pos + 4, r := 4 }) := by
  have h := receiveR_eq seg 4 (beBytes_four_ne_nil n)
    (Nat.le_of_eq (length_beBytes 4 n)) hdrop
  rwa [length_beBytes] at h

theorem receiveR_code {code : UInt8} (hdrop : stream.drop s.pos = code :: rest) :
    receiveR seg stream 1 1 s = .ok ([code], { s with pos := s.pos + 1, r := 1 }) :=
  receiveR_eq seg 1 (cons_ne_nil code []) (Nat.le_refl 1) hdrop

end Calls

/-! ## Names -/

section Names

variable (seg : Segmentation) {stream rest name : List UInt8} {s : Reception}

theorem receiveRaw_length {n : Nat} (hdrop : stream.drop s.pos = beBytes 4 n ++ rest) :
    mobilebackup2ReceiveRaw seg stream 4 4 s =
      .ok (some (beBytes 4 n), { s with pos := s.pos + 4 }) := by
  have h := receiveRaw_eq seg 4 (beBytes_four_ne_nil n)
    (Nat.le_of_eq (length_beBytes 4 n)) hdrop
  rwa [length_beBytes] at h

theorem mb2ReceiveFilename_end (hdrop : stream.drop s.pos = beBytes 4 0 ++ rest) :
    mb2ReceiveFilename seg stream s = .ok (none, { s with pos := s.pos + 4 }) := by
  rw [mb2ReceiveFilename, bind_eq_of_ok (receiveRaw_length seg hdrop)]
  simp only [Option.getD_some]
  rw [beVal_filled (by decide), length_beBytes, if_pos (by decide)]
  rfl

variable (hdrop : stream.drop s.pos = sentName name ++ rest)
include hdrop

theorem mb2ReceiveFilename_name (hname : name ≠ []) (hlen : name.length ≤ 4096) :
    mb2ReceiveFilename seg stream s =
      .ok (some name, { s with pos := s.pos + (sentName name).length }) := by
  rw [sentName, append_assoc] at hdrop
  have hbehind : stream.drop (s.pos + 4) = name ++ rest :=
    drop_behind hdrop (length_beBytes 4 _).symm
  have hpos : 0 < name.length := length_pos_iff.mpr hname
  have hval : beVal (filled 4 (beBytes 4 name.length)) = name.length := beVal_filled (by omega)
  rw [mb2ReceiveFilename, bind_eq_of_ok (receiveRaw_length seg hdrop)]
  simp only [Option.getD_some]
  rw [hval, length_beBytes, if_neg (by omega), if_neg (by decide), if_neg (by omega), receiveName,
    bind_eq_of_ok (receiveRaw_eq seg _ (s := { s with pos := s.pos + 4 }) hname (Nat.le_succ _) hbehind)]
  rw [if_pos (by exact ⟨rfl, by omega⟩), sentName, length_append, length_beBytes, ← Nat.add_assoc]
  rfl

theorem mb2ReceiveFilename_long (hlong : 4096 < name.length) (hlen : name.length < 2 ^ 32) :
    mb2ReceiveFilename seg stream s = .ok (none, { s with pos := s.pos + 4 }) := by
  rw [sentName, append_assoc] at hdrop
  have hval : beVal (filled 4 (beBytes 4 name.length)) = name.length := beVal_filled hlen
  rw [mb2ReceiveFilename, bind_eq_of_ok (receiveRaw_length seg hdrop)]
  simp only [Option.getD_some]
  rw [hval, length_beBytes, if_neg (by omega), if_neg (by decide), if_pos hlong]
  rfl

end Names

/-! ## Records -/

section Records

variable (seg : Segmentation) {stream rest : List UInt8} {s : Reception}

theorem receiveBlock_eq {data : List UInt8} {blocksize fuel bdone : Nat} (content : List UInt8)
    (hfuel : data.length ≤ fuel) (hsize : bdone + data.length = blocksize)
    (hdrop : stream.drop s.pos = data ++ rest) :
    ∃ r, receiveBlock seg stream blocksize fuel bdone content s =
      .ok (content ++ data, { s with pos := s.pos + data.length, r := r }) := by
  induction fuel generalizing s bdone content data with
  | zero =>
    obtain rfl : data = [] := length_eq_zero_iff.mp (Nat.le_zero.mp hfuel)
    exact ⟨s.r, by rw [receiveBlock, append_nil]; rfl⟩
  | succ fuel ih =>
    rw [receiveBlock]
    by_cases hnil : data = []
    · subst hnil
      rw [length_nil] at hsize
      rw [if_neg (by omega), append_nil]
      exact ⟨s.r, rfl⟩
    · have hpos : 0 < data.length := length_pos_iff.mpr hnil
      -- `k` bytes are asked for and come, and the loop goes on with the others
      obtain ⟨k, hk⟩ : ∃ k,
          (if blocksize - bdone < bufSize then blocksize - bdone else bufSize) = k := ⟨_, rfl⟩
      have hle : 0 < k ∧ k ≤ data.length ∧ k ≤ bufSize := by
        have hbuf : 0 < bufSize := by decide
        rw [← hk]
        split <;> omega
      have htake : (data.take k).length = k := length_take_of_le hle.2.1
      have hne : data.take k ≠ [] := by
        rw [← length_pos_iff, htake]
        exact hle.1
      have hhead : stream.drop s.pos = data.take k ++ (data.drop k ++ rest) := by
        rw [← append_assoc, take_append_drop]
        exact hdrop
      have hread := receiveR_eq seg bufSize hne (by omega) hhead
      rw [htake] at hread
      rw [if_pos (by omega), hk, bind_eq_of_ok hread, if_neg hne, htake]
      have hrest : (data.drop k).length = data.length - k := length_drop
      have hbehind : stream.drop (s.pos + k) = data.drop k ++ rest := drop_behind hhead htake.symm
      obtain ⟨r, hih⟩ : ∃ r, receiveBlock seg stream blocksize fuel (bdone + k)
          (content ++ data.take k) { s with pos := s.pos + k, r := k } =
            .ok (content ++ data.take k ++ data.drop k,
              { s with pos := s.pos + k + (data.drop k).length, r := r }) :=
        ih (s := { s with pos := s.pos + k, r := k }) _ (by omega) (by omega) hbehind
      refine ⟨r, ?_⟩
      rw [hih, append_assoc, take_append_drop, hrest, Nat.add_assoc, Nat.add_sub_of_le hle.2.1]

theorem pred32_succ {n : Nat} (hn : n + 1 < 2 ^ 32) : pred32 (n + 1) = n := by
  rw [pred32]
  omega

theorem receiveBlocks_step {block content payload : List UInt8} {code : UInt8} {fuel : Nat}
    (hblock : block.length + 1 < 2 ^ 32) (hpayload : payload.length + 1 < 2 ^ 32)
    (hdrop : stream.drop s.pos = block ++ (sentRecord code payload ++ rest)) :
    receiveBlocks seg stream (fuel + 1) (block.length + 1) CODE_FILE_DATA content s =
      receiveBlocks seg stream fuel (payload.length + 1) code (content ++ block)
        { s with pos := s.pos + block.length + 5, r := 1 } := by
  obtain ⟨r, hread⟩ := receiveBlock_eq seg content (Nat.le_refl block.length)
    (Nat.zero_add _) hdrop
  have hlength := drop_behind hdrop rfl
  rw [sentRecord, append_assoc, cons_append] at hlength
  have hcode := drop_behind hlength (length_beBytes 4 _).symm
  rw [receiveBlocks, if_pos rfl, pred32_succ hblock, bind_eq_of_ok hread,
    bind_eq_of_ok (receiveR_length seg (s := { s with pos := s.pos + block.length, r := r }) hlength)]
  simp only
  rw [beVal_filled hpayload, if_pos (Nat.succ_pos _),
    bind_eq_of_ok (receiveR_code seg (s := { s with pos := s.pos + block.length + 4, r := 4 }) hcode)]
  rfl

theorem drop_behind_header {block payload : List UInt8} {code : UInt8} {pos : Nat}
    (hdrop : stream.drop pos = block ++ (sentRecord code payload ++ rest)) :
    stream.drop (pos + block.length + 5) = payload ++ rest := by
  have hrecord := drop_behind hdrop rfl
  rw [sentRecord, append_assoc, cons_append] at hrecord
  have hcode : stream.drop (pos + block.length + 4) = [code] ++ (payload ++ rest) :=
    drop_behind hrecord (length_beBytes 4 _).symm
  have hpayload : stream.drop (pos + block.length + 4 + 1) = payload ++ rest := drop_behind hcode rfl
  exact hpayload

/-- **The blocks.**  The length and the code of a block are read; the loop takes it and the blocks
that follow, and the header of the record that closes them. -/
theorem receiveBlocks_eq {blocks : List (List UInt8)} {block content payload : List UInt8}
    {code : UInt8} {fuel : Nat} (hfuel : blocks.length + 1 < fuel) (hcode : code ≠ CODE_FILE_DATA)
    (hblocks : ∀ b ∈ block :: blocks, b.length + 1 < 2 ^ 32) (hpayload : payload.length + 1 < 2 ^ 32)
    (hdrop : stream.drop s.pos = block ++ ((blocks.map (sentRecord CODE_FILE_DATA)).flatten ++
        (sentRecord code payload ++ rest))) :
    receiveBlocks seg stream fuel (block.length + 1) CODE_FILE_DATA content s =
      .ok ((payload.length + 1, code, content ++ (block :: blocks).flatten), { s with
          pos := s.pos + block.length + (blocks.map (sentRecord CODE_FILE_DATA)).flatten.length + 5
          r := 1 }) := by
  have hblock := hblocks block mem_cons_self
  induction blocks generalizing s block content fuel with
  | nil =>
    obtain ⟨fuel, rfl⟩ : ∃ f, fuel = f + 2 := ⟨fuel - 2, by rw [length_nil] at hfuel; omega⟩
    rw [receiveBlocks_step seg hblock hpayload hdrop, receiveBlocks, if_neg hcode,
      flatten_cons, flatten_nil, append_nil, map_nil, flatten_nil]
    rfl
  | cons next blocks ih =>
    obtain ⟨fuel, rfl⟩ : ∃ f, fuel = f + 1 := ⟨fuel - 1, by omega⟩
    rw [length_cons] at hfuel
    have hrest : ∀ b ∈ next :: blocks, b.length + 1 < 2 ^ 32 :=
      fun b hb => hblocks b (mem_cons_of_mem block hb)
    have hnext := hrest next mem_cons_self
    rw [map_cons, flatten_cons, append_assoc] at hdrop
    rw [receiveBlocks_step seg hblock hnext hdrop,
      ih (s := { s with pos := s.pos + block.length + 5, r := 1 }) (by omega) hrest
        (drop_behind_header hdrop) hnext]
    simp only [flatten_cons, map_cons, length_append, sentRecord,
      length_beBytes, length_cons, append_assoc]
    congr 3
    omega

end Records

/-! ## Entries -/

section Entries

variable (seg : Segmentation) {stream rest : List UInt8} {s : Reception} (canOpen : Nat → Bool)
  (backupDir : List UInt8) {e : Entry}

theorem code_ne_fileData (e : Entry) : e.code ≠ CODE_FILE_DATA := by
  rw [Entry.code]
  split <;> decide

theorem message_lt (henc : e.Encodable) : e.message.length + 1 < 2 ^ 32 := by
  rw [Entry.message]
  cases herror : e.error with
  | none => decide
  | some message => exact henc.error_lt message herror

theorem get_eq (s : Reception) : (get : Receiving Reception) s = .ok (s, s) := rfl

theorem receiveMessage_eq {message : List UInt8} (hne : message ≠ [])
    (hdrop : stream.drop s.pos = message ++ rest) :
    receiveMessage seg stream (message.length + 1) s =
      .ok ((), { s with pos := s.pos + message.length, r := message.length }) := by
  rw [receiveMessage, Nat.add_sub_cancel,
    bind_eq_of_ok (receiveR_eq seg _ hne (Nat.le_succ _) hdrop), bind_eq_of_ok (get_eq _),
    if_pos (Nat.lt_succ_self _)]
  rfl

theorem receiveMessage_empty (hr : s.r = 1) :
    receiveMessage seg stream 1 s = .error .overrun := by
  have hread : receiveR seg stream 1 (1 - 1) s = .ok ([], s) := rfl
  rw [receiveMessage, bind_eq_of_ok hread, bind_eq_of_ok (get_eq s), hr, if_neg (by decide)]
  rfl

theorem closeEntry_eq (bname : List UInt8) (hne : e.error ≠ some [])
    (hdrop : stream.drop s.pos = e.message ++ rest) :
    ∃ r, closeEntry seg stream bname (e.message.length + 1) e.code s =
      .ok (.again, { s with pos := s.pos + e.message.length, r := r }) := by
  rw [closeEntry, if_neg (Nat.succ_ne_zero _)]
  cases herror : e.error with
  | none =>
    have hcode : e.code ≠ CODE_ERROR_REMOTE := by
      rw [Entry.code, herror]
      decide
    have hmessage : e.message = [] := by rw [Entry.message, herror]; rfl
    rw [if_neg hcode, hmessage]
    exact ⟨s.r, rfl⟩
  | some message =>
    have hcode : e.code = CODE_ERROR_REMOTE := by rw [Entry.code, herror]; rfl
    have hmessage : e.message = message := by rw [Entry.message, herror]; rfl
    rw [hmessage] at hdrop ⊢
    have hsome : message ≠ [] := fun h => hne (by rw [herror, h])
    rw [if_pos hcode, bind_eq_of_ok (receiveMessage_eq seg hsome hdrop)]
    exact ⟨message.length, rfl⟩

theorem closeEntry_empty {bname : List UInt8} (hempty : e.error = some []) (hr : s.r = 1) :
    closeEntry seg stream bname (e.message.length + 1) e.code s = .error .overrun := by
  have hcode : e.code = CODE_ERROR_REMOTE := by rw [Entry.code, hempty]; rfl
  have hmessage : e.message = [] := by rw [Entry.message, hempty]; rfl
  rw [closeEntry, if_neg (Nat.succ_ne_zero _), if_pos hcode, hmessage]
  show (Except.bind (receiveMessage seg stream 1 s) _) = _
  rw [receiveMessage_empty seg hr]
  rfl

theorem receiveFile_header {bname payload : List UInt8} {code : UInt8}
    (hpayload : payload.length + 1 < 2 ^ 32)
    (hdrop : stream.drop s.pos = sentRecord code payload ++ rest) :
    receiveFile seg stream canOpen bname s =
      storeFile seg stream canOpen bname (payload.length + 1) code
        { s with pos := s.pos + 5, r := 1 } := by
  rw [sentRecord, append_assoc, cons_append] at hdrop
  have hcode := drop_behind hdrop (length_beBytes 4 _).symm
  have hval : beVal (beBytes 4 (payload.length + 1)) = payload.length + 1 := beVal_beBytes hpayload
  rw [receiveFile, bind_eq_of_ok (receiveR_length seg hdrop),
    if_neg (by rw [length_beBytes]; decide),
    bind_eq_of_ok (receiveR_code seg (s := { s with pos := s.pos + 4, r := 4 }) hcode)]
  simp only
  rw [hval]

theorem storeFile_refused {bname : List UInt8} {nlen : Nat} {code : UInt8}
    (hopen : canOpen s.tries = false) :
    storeFile seg stream canOpen bname nlen code s =
      closeEntry seg stream bname nlen code
        { s with tries := s.tries + 1, log := s.log ++ [.remove bname, .refused bname] } := by
  have hfile : openFile canOpen bname s =
      .ok (false, { s with tries := s.tries + 1, log := s.log ++ [.remove bname] }) := by
    rw [openFile, hopen]
  rw [storeFile, bind_eq_of_ok hfile]
  show closeEntry seg stream bname nlen code
    { s with tries := s.tries + 1, log := s.log ++ [.remove bname] ++ [.refused bname] } = _
  rw [append_assoc]
  rfl

theorem storeFile_opened {bname content : List UInt8} {nlen nlen' pos : Nat} {code code' : UInt8}
    (hopen : canOpen s.tries = true) (hr : s.r = 1)
    (hblocks : ∀ t : Reception, t.pos = s.pos → t.r = 1 →
      receiveBlocks seg stream (stream.length + 1) nlen code [] t =
        .ok ((nlen', code', content), { t with pos := pos, r := 1 })) :
    storeFile seg stream canOpen bname nlen code s =
      closeEntry seg stream bname nlen' code'
        ⟨pos, 1, s.fileCount + 1, s.tries + 1,
          s.log ++ [.remove bname, .saved bname content]⟩ := by
  have hfile : openFile canOpen bname s =
      .ok (true, { s with tries := s.tries + 1, log := s.log ++ [.remove bname] }) := by
    rw [openFile, hopen]
  have hread := hblocks { s with tries := s.tries + 1, log := s.log ++ [.remove bname] } rfl hr
  rw [storeFile, bind_eq_of_ok hfile, receiveContent, if_pos rfl, bind_eq_of_ok hread]
  show closeEntry seg stream bname nlen' code'
    ⟨pos, 1, s.fileCount + 1, s.tries + 1, s.log ++ [.remove bname] ++ [.saved bname content]⟩ = _
  rw [append_assoc]
  rfl

theorem length_le_records (blocks : List (List UInt8)) :
    blocks.length ≤ (blocks.map (sentRecord CODE_FILE_DATA)).flatten.length := by
  induction blocks with
  | nil => exact Nat.zero_le _
  | cons block blocks ih =>
    rw [map_cons, flatten_cons, length_append, length_cons, sentRecord,
      length_append, length_beBytes]
    omega

/-- **The records of an entry**, up to the payload of the last one: the file is dealt with. -/
theorem receiveFile_eq (henc : e.Encodable) (hopen : canOpen s.tries = false → e.blocks = [])
    (hdrop : stream.drop s.pos = e.records ++ rest) :
    ∃ pos fileCount, pos + e.message.length = s.pos + e.records.length ∧
      stream.drop pos = e.message ++ rest ∧
      receiveFile seg stream canOpen (stringBuildPath backupDir [e.fname]) s =
        closeEntry seg stream (stringBuildPath backupDir [e.fname]) (e.message.length + 1) e.code
          ⟨pos, 1, fileCount, s.tries + 1, s.log ++ e.calls backupDir (canOpen s.tries)⟩ := by
  have hmessage := message_lt henc
  have hlen : e.records.length =
      (e.blocks.map (sentRecord CODE_FILE_DATA)).flatten.length + 5 + e.message.length := by
    rw [Entry.records, sentRecord, length_append, length_append, length_beBytes, length_cons]
    omega
  rw [Entry.records, append_assoc] at hdrop
  rw [Entry.calls, hlen]
  cases hblocks : e.blocks with
  | nil =>
    rw [hblocks, map_nil, flatten_nil, nil_append] at hdrop
    have hnone : stream.drop s.pos = [] ++ (sentRecord e.code e.message ++ rest) := hdrop
    have hbehind : stream.drop (s.pos + 5) = e.message ++ rest := drop_behind_header hnone
    rw [receiveFile_header seg canOpen hmessage hdrop, map_nil, flatten_nil,
      length_nil, Nat.zero_add, ← Nat.add_assoc]
    cases hfile : canOpen s.tries with
    | false =>
      exact ⟨s.pos + 5, s.fileCount, rfl, hbehind,
        storeFile_refused seg canOpen (s := { s with pos := s.pos + 5, r := 1 }) hfile⟩
    | true =>
      refine ⟨s.pos + 5, s.fileCount + 1, rfl, hbehind,
        storeFile_opened seg canOpen (s := { s with pos := s.pos + 5, r := 1 }) hfile rfl ?_⟩
      intro t hpos hr
      obtain ⟨_, _, _, _, _⟩ := t
      cases hpos
      cases hr
      rw [receiveBlocks, if_neg (code_ne_fileData e)]
      rfl
  | cons block blocks =>
    have hfile : canOpen s.tries = true := by
      cases hfile : canOpen s.tries with
      | true => rfl
      | false => exact absurd (hopen hfile) (by rw [hblocks]; exact cons_ne_nil _ _)
    have hlt : ∀ b ∈ block :: blocks, b.length + 1 < 2 ^ 32 := hblocks ▸ henc.blocks_lt
    rw [hblocks, map_cons, flatten_cons, append_assoc] at hdrop
    have hnone : stream.drop s.pos = [] ++ (sentRecord CODE_FILE_DATA block ++ _) := hdrop
    have hfirst : stream.drop (s.pos + 5) = block ++ _ := drop_behind_header hnone
    have hfuel : blocks.length + 1 < stream.length + 1 := by
      have hle := length_le_records blocks
      have hall := congrArg List.length hdrop
      simp only [length_drop, length_append, sentRecord, length_beBytes, length_cons] at hall
      omega
    obtain ⟨pos, hpos⟩ : ∃ pos, pos = s.pos + 5 + block.length +
        (blocks.map (sentRecord CODE_FILE_DATA)).flatten.length + 5 := ⟨_, rfl⟩
    have hbehind : stream.drop pos = e.message ++ rest := by
      rw [← append_assoc] at hfirst
      have hlast := drop_behind_header hfirst
      rw [length_append] at hlast
      rw [hpos, ← hlast]
      congr 1
      omega
    rw [receiveFile_header seg canOpen (hlt block mem_cons_self) hdrop, hfile]
    refine ⟨pos, s.fileCount + 1, ?_, hbehind,
      storeFile_opened seg canOpen (s := { s with pos := s.pos + 5, r := 1 }) hfile rfl ?_⟩
    · rw [hpos, map_cons, flatten_cons, length_append, sentRecord,
        length_append, length_beBytes, length_cons]
      omega
    · intro t ht _
      have hthere : stream.drop t.pos = block ++
          ((blocks.map (sentRecord CODE_FILE_DATA)).flatten ++
            (sentRecord e.code e.message ++ rest)) := ht ▸ hfirst
      rw [receiveBlocks_eq seg hfuel (code_ne_fileData e) hlt hmessage hthere, hpos, ht]
      rfl

section Turns

variable (hent : e.Encodable) (hdrop : stream.drop s.pos = e.sent ++ rest)
include hent hdrop

theorem receiveEntry_records (hopen : canOpen s.tries = false → e.blocks = [])
    (hdname : e.dname.length ≤ 4096) (hfname : e.fname.length ≤ 4096) :
    ∃ pos fileCount, pos + e.message.length = s.pos + e.sent.length ∧
      stream.drop pos = e.message ++ rest ∧
      receiveEntry seg stream canOpen backupDir s =
        closeEntry seg stream (stringBuildPath backupDir [e.fname]) (e.message.length + 1) e.code
          ⟨pos, 1, fileCount, s.tries + 1, s.log ++ e.calls backupDir (canOpen s.tries)⟩ := by
  rw [Entry.sent, append_assoc, append_assoc] at hdrop
  have hsecond := drop_behind hdrop rfl
  have hrecords := drop_behind hsecond rfl
  obtain ⟨pos, fileCount, hpos, hmessage, hfile⟩ := receiveFile_eq seg canOpen backupDir hent
    (s := { s with pos := s.pos + (sentName e.dname).length + (sentName e.fname).length })
    hopen hrecords
  refine ⟨pos, fileCount, ?_, hmessage, ?_⟩
  · rw [hpos, Entry.sent, length_append, length_append, ← Nat.add_assoc, ← Nat.add_assoc]
  · rw [receiveEntry, bind_eq_of_ok (mb2ReceiveFilename_name seg hdrop hent.dname_ne hdname)]
    simp only
    rw [receiveNamed, bind_eq_of_ok (mb2ReceiveFilename_name seg
      (s := { s with pos := s.pos + (sentName e.dname).length }) hsecond hent.fname_ne hfname)]
    exact hfile

/-- **An entry** that has nothing it must not have. -/
theorem receiveEntry_eq (hopen : canOpen s.tries = false → e.blocks = []) (hmodest : e.Modest) :
    ∃ r fileCount, receiveEntry seg stream canOpen backupDir s =
      .ok (.again, ⟨s.pos + e.sent.length, r, fileCount, s.tries + 1,
        s.log ++ e.calls backupDir (canOpen s.tries)⟩) := by
  obtain ⟨pos, fileCount, hpos, hmessage, hentry⟩ := receiveEntry_records seg canOpen backupDir hent
    hdrop hopen hmodest.dname_le hmodest.fname_le
  obtain ⟨r, hclose⟩ := closeEntry_eq seg (stringBuildPath backupDir [e.fname])
    (s := ⟨pos, 1, fileCount, s.tries + 1, s.log ++ e.calls backupDir (canOpen s.tries)⟩)
    hmodest.error_ne hmessage
  exact ⟨r, fileCount, by rw [hentry, hclose, ← hpos]⟩

theorem receiveEntry_empty (hopen : canOpen s.tries = false → e.blocks = [])
    (hdname : e.dname.length ≤ 4096) (hfname : e.fname.length ≤ 4096) (hempty : e.error = some []) :
    receiveEntry seg stream canOpen backupDir s = .error .overrun := by
  obtain ⟨pos, fileCount, -, -, hentry⟩ := receiveEntry_records seg canOpen backupDir hent
    hdrop hopen hdname hfname
  rw [hentry]
  exact closeEntry_empty seg hempty rfl

theorem receiveEntry_long (hlong : ¬ (e.dname.length ≤ 4096 ∧ e.fname.length ≤ 4096)) :
    ∃ pos, pos < s.pos + e.sent.length ∧
      receiveEntry seg stream canOpen backupDir s = .ok (.leave 0 [], { s with pos := pos }) := by
  rw [Entry.sent, append_assoc, append_assoc] at hdrop
  have hrecords : 0 < e.records.length := by
    rw [Entry.records, sentRecord, length_append, length_append, length_beBytes]
    omega
  have hlen : e.sent.length =
      4 + e.dname.length + (4 + e.fname.length + e.records.length) := by
    simp only [Entry.sent, sentName, length_append, length_beBytes]
  rw [hlen, receiveEntry]
  by_cases hdname : e.dname.length ≤ 4096
  · have hfname : 4096 < e.fname.length := Nat.lt_of_not_le fun h => hlong ⟨hdname, h⟩
    refine ⟨s.pos + (sentName e.dname).length + 4, ?_, ?_⟩
    · rw [sentName, length_append, length_beBytes]
      omega
    · rw [bind_eq_of_ok (mb2ReceiveFilename_name seg hdrop hent.dname_ne hdname)]
      simp only
      rw [receiveNamed, bind_eq_of_ok (mb2ReceiveFilename_long seg
          (s := { s with pos := s.pos + (sentName e.dname).length }) (drop_behind hdrop rfl) hfname
          hent.fname_lt)]
      rfl
  · refine ⟨s.pos + 4, by omega, ?_⟩
    rw [bind_eq_of_ok (mb2ReceiveFilename_long seg hdrop (Nat.lt_of_not_le hdname) hent.dname_lt)]
    rfl

end Turns

/-! ## Uploads -/

theorem receiveEntry_end (hdrop : stream.drop s.pos = beBytes 4 0 ++ rest) :
    receiveEntry seg stream canOpen backupDir s =
      .ok (.leave 0 [], { s with pos := s.pos + 4 }) := by
  rw [receiveEntry, bind_eq_of_ok (mb2ReceiveFilename_end seg hdrop)]
  rfl

theorem upload_cons (e : Entry) (entries : List Entry) :
    upload (e :: entries) = e.sent ++ upload entries := by
  rw [upload, map_cons, flatten_cons, append_assoc]
  rfl

theorem UnopenedEmpty.head {tries : Nat} {entries : List Entry}
    (h : UnopenedEmpty canOpen tries (e :: entries)) : canOpen tries = false → e.blocks = [] :=
  h 0 e rfl

theorem UnopenedEmpty.tail {tries : Nat} {entries : List Entry}
    (h : UnopenedEmpty canOpen tries (e :: entries)) : UnopenedEmpty canOpen (tries + 1) entries := by
  intro k e' he hopen
  rw [Nat.add_assoc, Nat.add_comm 1 k] at hopen
  exact h (k + 1) e' (by rw [List.getElem?_cons_succ]; exact he) hopen

variable {entries : List Entry} {fuel : Nat}

/-- **The main loop** over an upload whose entries are modest. -/
theorem mb2ReceiveLoop_eq (hent : ∀ e ∈ entries, e.Encodable) (hfuel : entries.length < fuel)
    (hopen : UnopenedEmpty canOpen s.tries entries) (hmodest : ∀ e ∈ entries, e.Modest)
    (hdrop : stream.drop s.pos = upload entries ++ rest) :
    ∃ r fileCount tries, mb2ReceiveLoop seg stream canOpen backupDir fuel s =
      .ok ((0, []), ⟨s.pos + (upload entries).length, r, fileCount, tries,
        s.log ++ expectedCalls canOpen backupDir s.tries entries⟩) := by
  induction entries generalizing s fuel with
  | nil =>
    obtain ⟨fuel, rfl⟩ : ∃ f, fuel = f + 1 := ⟨fuel - 1, by rw [length_nil] at hfuel; omega⟩
    refine ⟨s.r, s.fileCount, s.tries, ?_⟩
    rw [mb2ReceiveLoop, bind_eq_of_ok (receiveEntry_end seg canOpen backupDir hdrop), expectedCalls,
      append_nil]
    rfl
  | cons e entries ih =>
    obtain ⟨fuel, rfl⟩ : ∃ f, fuel = f + 1 := ⟨fuel - 1, by omega⟩
    rw [length_cons] at hfuel
    rw [upload_cons, append_assoc] at hdrop
    obtain ⟨r, fileCount, hentry⟩ := receiveEntry_eq seg canOpen backupDir
      (hent e mem_cons_self) hdrop (hopen.head canOpen) (hmodest e mem_cons_self)
    obtain ⟨r', fileCount', tries, hrest⟩ := ih
      (s := ⟨s.pos + e.sent.length, r, fileCount, s.tries + 1,
        s.log ++ e.calls backupDir (canOpen s.tries)⟩)
      (fun e' he => hent e' (mem_cons_of_mem e he)) (Nat.lt_of_succ_lt_succ hfuel)
      (hopen.tail canOpen) (fun e' he => hmodest e' (mem_cons_of_mem e he)) (drop_behind hdrop rfl)
    refine ⟨r', fileCount', tries, ?_⟩
    rw [mb2ReceiveLoop, bind_eq_of_ok hentry]
    simp only
    rw [hrest, upload_cons, length_append, expectedCalls, append_assoc, Nat.add_assoc]

theorem mb2ReceiveLoop_short (hent : ∀ e ∈ entries, e.Encodable) (hfuel : entries.length < fuel)
    (hopen : UnopenedEmpty canOpen s.tries entries) (hmodest : ¬ ∀ e ∈ entries, e.Modest)
    (hdrop : stream.drop s.pos = upload entries ++ rest) :
    mb2ReceiveLoop seg stream canOpen backupDir fuel s = .error .overrun ∨
      ∃ s', mb2ReceiveLoop seg stream canOpen backupDir fuel s = .ok ((0, []), s') ∧
        s'.pos < s.pos + (upload entries).length := by
  induction entries generalizing s fuel with
  | nil => exact absurd (fun e he => absurd he not_mem_nil) hmodest
  | cons e entries ih =>
    obtain ⟨fuel, rfl⟩ : ∃ f, fuel = f + 1 := ⟨fuel - 1, by omega⟩
    rw [length_cons] at hfuel
    rw [upload_cons, append_assoc] at hdrop
    have he := hent e mem_cons_self
    have hhead := hopen.head canOpen
    rw [mb2ReceiveLoop, upload_cons, length_append]
    by_cases hnames : e.dname.length ≤ 4096 ∧ e.fname.length ≤ 4096
    · by_cases hempty : e.error = some []
      · refine .inl ?_
        show Except.bind (receiveEntry seg stream canOpen backupDir s) _ = _
        rw [receiveEntry_empty seg canOpen backupDir he hdrop hhead hnames.1 hnames.2 hempty]
        rfl
      · -- this entry is modest, and one of the others is not
        have hthis : e.Modest := ⟨hnames.1, hnames.2, hempty⟩
        obtain ⟨r, fileCount, hentry⟩ := receiveEntry_eq seg canOpen backupDir he hdrop hhead hthis
        have hothers : ¬ ∀ e' ∈ entries, e'.Modest := by
          intro hall
          exact hmodest (forall_mem_cons.mpr ⟨hthis, hall⟩)
        rw [bind_eq_of_ok hentry]
        rcases ih
          (s := ⟨s.pos + e.sent.length, r, fileCount, s.tries + 1,
            s.log ++ e.calls backupDir (canOpen s.tries)⟩)
          (fun e' he => hent e' (mem_cons_of_mem e he)) (Nat.lt_of_succ_lt_succ hfuel)
          (hopen.tail canOpen) hothers (drop_behind hdrop rfl) with hfault | ⟨s', hrun, hpos⟩
        · exact .inl hfault
        · exact .inr ⟨s', hrun, by rw [← Nat.add_assoc]; exact hpos⟩
    · obtain ⟨pos, hpos, hentry⟩ := receiveEntry_long seg canOpen backupDir he hdrop hnames
      rw [bind_eq_of_ok hentry]
      exact .inr ⟨{ s with pos := pos }, rfl, by simp only; omega⟩

end Entries

section Uploads

variable (seg : Segmentation) (stream : List UInt8) (canOpen : Nat → Bool) (backupDir : List UInt8)

theorem length_le_upload (entries : List Entry) : entries.length ≤ (upload entries).length := by
  induction entries with
  | nil => exact Nat.zero_le _
  | cons e entries ih =>
    rw [upload_cons, length_cons, length_append, Entry.sent, length_append, sentName,
      length_append, length_beBytes]
    omega

theorem mb2HandleReceiveFiles_of_loop {items : Nat} (hitems : 4 ≤ items) {s s' : Reception}
    {bname : List UInt8}
    (hloop : mb2ReceiveLoop seg stream canOpen backupDir (stream.length + 1) s = .ok ((0, bname), s')) :
    mb2HandleReceiveFiles seg stream canOpen backupDir (some items) s =
      .ok (s'.fileCount, { s' with log := s'.log ++ [.statusResponse] }) := by
  rw [mb2HandleReceiveFiles, if_neg (by rw [Option.getD_some]; omega), bind_eq_of_ok hloop]
  rfl

/-- **Uploads are received.**  An upload of encodable entries is the next thing in the stream.  If
the files that cannot be opened have no blocks, no name is longer than 4096 bytes and no message of
an error is empty, then it is received however the stream is cut.  If the files that cannot be
opened have no blocks, it is received only then. -/
theorem receiveFiles_correct {items : Nat} (hitems : 4 ≤ items) {entries : List Entry}
    (hent : ∀ e ∈ entries, e.Encodable) {pos : Nat} {rest : List UInt8}
    (hstream : stream.drop pos = upload entries ++ rest) :
    (UnopenedEmpty canOpen 0 entries → (∀ e ∈ entries, e.Modest) →
      UploadReceived seg stream canOpen backupDir (some items) pos entries) ∧
    (UnopenedEmpty canOpen 0 entries →
      UploadReceived seg stream canOpen backupDir (some items) pos entries → ∀ e ∈ entries, e.Modest) := by
  have hfuel : entries.length < stream.length + 1 := by
    have hle := length_le_upload entries
    have hall := congrArg List.length hstream
    rw [length_drop, length_append] at hall
    omega
  constructor
  · intro hopen hmodest
    obtain ⟨r, fileCount, tries, hloop⟩ := mb2ReceiveLoop_eq seg canOpen backupDir
      (s := ⟨pos, 0, 0, 0, []⟩) hent hfuel hopen hmodest hstream
    exact ⟨_, _, mb2HandleReceiveFiles_of_loop seg stream canOpen backupDir hitems hloop, rfl, rfl⟩
  · rintro hopen ⟨count, s, hrun, hpos, -⟩
    by_contra hmodest
    rcases mb2ReceiveLoop_short seg canOpen backupDir (s := ⟨pos, 0, 0, 0, []⟩) hent hfuel hopen
      hmodest hstream with hfault | ⟨s', hloop, hshort⟩
    · have hstop : mb2HandleReceiveFiles seg stream canOpen backupDir (some items) ⟨pos, 0, 0, 0, []⟩ =
          .error .overrun := by
        rw [mb2HandleReceiveFiles, if_neg (by rw [Option.getD_some]; omega)]
        show Except.bind (mb2ReceiveLoop seg stream canOpen backupDir (stream.length + 1) _) _ = _
        rw [hfault]
        rfl
      rw [hstop] at hrun
      cases hrun
    · rw [mb2HandleReceiveFiles_of_loop seg stream canOpen backupDir hitems hloop] at hrun
      cases hrun
      exact absurd hpos (Nat.ne_of_lt hshort)

end Uploads

/-! ## Three uploads -/

/-- A file with two blocks. -/
def sampleEntry : Entry := ⟨lit "d", lit "f", [lit "ab", lit "c"], none⟩

theorem sampleEntry_encodable : ∀ e ∈ [sampleEntry], e.Encodable := by
  intro e he
  rw [mem_singleton.mp he]
  exact ⟨by decide, by decide, by decide, by decide, by decide, by decide⟩

/-- It is received, in pieces of two bytes. -/
theorem receiveFiles_sample :
    UploadReceived .pairs (upload [sampleEntry]) (fun _ => true) (lit "b") (some 4) 0 [sampleEntry] := by
  have hstream : (upload [sampleEntry]).drop 0 = upload [sampleEntry] ++ [] :=
    (append_nil _).symm
  refine (receiveFiles_correct .pairs (upload [sampleEntry]) (fun _ => true) (lit "b") (by decide)
    sampleEntry_encodable hstream).1 ?_ ?_
  · intro k e _ hopen
    cases hopen
  · intro e he
    rw [mem_singleton.mp he]
    exact ⟨by decide, by decide, by decide⟩

/-- An entry that is closed with an empty message. -/
def emptyMessage : Entry := ⟨lit "d", lit "f", [], some []⟩

/-- Behind the one byte of `msg` a zero is written. -/
theorem receiveFiles_empty_message :
    (∀ e ∈ [emptyMessage], e.Encodable) ∧
      mb2HandleReceiveFiles .whole (upload [emptyMessage]) (fun _ => true) (lit "b") (some 4)
        ⟨0, 0, 0, 0, []⟩ = .error .overrun ∧
      ¬ UploadReceived .whole (upload [emptyMessage]) (fun _ => true) (lit "b") (some 4) 0
        [emptyMessage] := by
  have hrun : mb2HandleReceiveFiles .whole (upload [emptyMessage]) (fun _ => true) (lit "b") (some 4)
      ⟨0, 0, 0, 0, []⟩ = .error .overrun := by rfl
  refine ⟨?_, hrun, ?_⟩
  · intro e he
    rw [mem_singleton.mp he]
    exact ⟨by decide, by decide, by decide, by decide, by decide, by decide⟩
  · rintro ⟨count, s, hok, -, -⟩
    rw [hrun] at hok
    cases hok

end IDeviceStack.Libimobiledevice
