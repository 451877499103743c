/-
# `Libimobiledevice.BackupPaths` — where a backup reaches

The requests of the device in the main loop of `idevicebackup2.c`, as the calls that they make
to the file system.

* What the calls return is a parameter, the `Host`: it may change from call to call.  All that is
  known of it is that the entries of a directory have names.
* `Host.HasBackupDir` says that the backup directory exists, so that `mkdir` does not create it or a
  directory above it.  The tool looks for it, but for `changepw` and `cloud`: there it has the name
  of a folder that is not present on purpose.
* There are no symbolic links: a path denotes the place that its names lead to.  The separator is
  the slash; the branches for `WIN32` are left out.
* Of an upload, the names of the files are taken, as `mb2_receive_filename` returns them;
  `receiveFiles_calls` says that its calls are those of `BackupReceive`.
* Nobody asks the tool to quit.  Recursions that are too deep, and values that `libplist` does not
  accept, end the program.  The responses are left out.

**Proved here.**  `requests_confined`, `requests_escape`.
-/
import IDeviceStack.Lib.FileTree
import Mathlib.Data.List.DropRight
import IDeviceStack.Libimobiledevice.BackupReceive

namespace IDeviceStack.Libimobiledevice

open Lib Libplist Libplist.Xplist List

/-! ## The file system -/

/-- What `stat` tells of a file. -/
inductive FileKind where
  | directory
  | regular
  | other
  deriving DecidableEq, Repr

/-- How `mkdir` ends. -/
inductive MkdirResult where
  | made
  | eexist
  | failed
  deriving DecidableEq, Repr

/-- A path without the slashes at its end. -/
def trimSlashes (path : List UInt8) : List UInt8 := path.rdropWhile (· = slash)

/-- The machine that the tool runs on: the result of a call depends on its number, so that
everything may change in between. -/
structure Host where
  cwd : Path
  backupDir : List UInt8
  stat : Nat → List UInt8 → Option FileKind
  size : Nat → List UInt8 → Nat
  fopen : Nat → List UInt8 → Bool
  readdir : Nat → List UInt8 → Option (List Name)
  mkdir : Nat → List UInt8 → MkdirResult
  /-- What `remove` and `rename` return: zero, or an `errno`. -/
  remove : Nat → List UInt8 → Nat
  rename : Nat → List UInt8 → List UInt8 → Nat
  /-- Whether the device takes the name of a file, and its contents. -/
  takesName : Nat → Bool
  takesData : Nat → Bool
  backupDir_ne : backupDir ≠ []
  backupDir_nul : NulFree backupDir
  /-- The entries of a directory have names. -/
  readdir_name : ∀ n path names, readdir n path = some names →
    ∀ name ∈ names, name ≠ [] ∧ slash ∉ name ∧ NulFree name

/-- The backup directory exists, and those above it. -/
structure Host.HasBackupDir (host : Host) : Prop where
  above : ∀ n path, place host.cwd path <+: place host.cwd host.backupDir →
    host.mkdir n path ≠ .made
  there : ∀ n path, path ≠ [] → trimSlashes path = trimSlashes host.backupDir →
    host.mkdir n path = .eexist

/-- A call to the file system. -/
inductive FsCall where
  | stat (path : List UInt8)
  | openRead (path : List UInt8)
  | openWrite (path : List UInt8)
  | list (path : List UInt8)
  | mkdir (path : List UInt8) (made : Bool)
  | remove (path : List UInt8)
  | rename (old new : List UInt8)
  deriving DecidableEq, Repr

/-- The paths that a call reads or changes. -/
def FsCall.touches : FsCall → List (List UInt8)
  | .stat path | .openRead path | .openWrite path | .list path | .remove path => [path]
  | .mkdir path made => if made then [path] else []
  | .rename old new => [old, new]

/-- A part of the program: the calls are written down, also when it crashes. -/
abbrev Session := Prog (List FsCall) (List FsCall)

def crash {α : Type} : Session α := fun log => .error log

section Calls

variable (host : Host)

def statPath (path : List UInt8) : Session (Option FileKind) := fun log =>
  .ok (host.stat log.length path, log ++ [.stat path])

def openRead (path : List UInt8) : Session Bool := fun log =>
  .ok (host.fopen log.length path, log ++ [.openRead path])

def openWrite (path : List UInt8) : Session Bool := fun log =>
  .ok (host.fopen log.length path, log ++ [.openWrite path])

def listPath (path : List UInt8) : Session (Option (List Name)) := fun log =>
  .ok (host.readdir log.length path, log ++ [.list path])

def makePath (path : List UInt8) : Session MkdirResult := fun log =>
  .ok (host.mkdir log.length path, log ++ [.mkdir path (host.mkdir log.length path = .made)])

def removePath (path : List UInt8) : Session Nat := fun log =>
  .ok (host.remove log.length path, log ++ [.remove path])

def renamePath (old new : List UInt8) : Session Nat := fun log =>
  .ok (host.rename log.length old new, log ++ [.rename old new])

/-- What is not a call, but depends on the host. -/
def ask {α : Type} (answer : Nat → α) : Session α := fun log => .ok (answer log.length, log)

end Calls

/-! ## The helpers -/

def dirname (path : List UInt8) : List UInt8 :=
  let parent := trimSlashes ((trimSlashes path).rdropWhile (· ≠ slash))
  if parent ≠ [] then parent else if path.head? = some slash then [slash] else [46]

/-- `.` and `..` are left out of a listing. -/
def isSelfOrParent (name : Name) : Bool := name = [46] ∨ name = [46, 46]

section Helpers

variable (host : Host)

/-- `mkdir_with_parents`; `true` stands for 0. -/
def mkdirWithParents : Nat → List UInt8 → Session Bool
  | 0, _ => crash
  | depth + 1, dir => do
      let result ← makePath host dir
      if result ≠ .failed then return true
      else do
        let res ← mkdirWithParents depth (dirname dir)
        if res then do
          let _ ← mkdirWithParents depth dir
          return true
        else return false

/-- An entry is removed; `rmdir` is the call for a directory.  If `stat` failed, that is the
result. -/
def removeEntry (rmdir : List UInt8 → Session Nat) (fpath : List UInt8) :
    Option FileKind → Session Nat
  | none => pure 2
  | some .directory => rmdir fpath
  | some _ => removePath host fpath

/-- The loop of `rmdir_recursive`. -/
def rmdirEntries (rmdir : List UInt8 → Session Nat) (path : List UInt8) : List Name → Session Nat
  | [] => pure 0
  | name :: names =>
    if isSelfOrParent name then rmdirEntries rmdir path names
    else do
      let fpath := stringBuildPath path [name]
      let kind ← statPath host fpath
      let res ← removeEntry host rmdir fpath kind
      if res ≠ 0 then return res else rmdirEntries rmdir path names

def rmdirRecursive : Nat → List UInt8 → Session Nat
  | 0, _ => crash
  | depth + 1, path => do
      let names ← listPath host path
      let res ← rmdirEntries host (rmdirRecursive depth) path (names.getD [])
      if res ≠ 0 then return res else removePath host path

/-- A directory goes with what is in it. -/
def removeAny (depth : Nat) (path : List UInt8) : Session Nat := do
  let kind ← statPath host path
  if kind = some .directory then rmdirRecursive host depth path else removePath host path

def mb2CopyFileByPath (src dst : List UInt8) : Session Unit := do
  let opened ← openRead host src
  if opened then do
    let _ ← openWrite host dst
    return ()
  else return ()

/-- The loop of `mb2_copy_directory_by_path`. -/
def copyEntries (src dst : List UInt8) (names : List Name) : Session Unit :=
  (names.filter fun name => !isSelfOrParent name).forM fun name =>
    mb2CopyFileByPath host (stringBuildPath src [name]) (stringBuildPath dst [name])

/-- The destination of a copy is made, unless it is there. -/
def ensureDirectory (depth : Nat) (dst : List UInt8) : Session Bool := do
  let kind ← statPath host dst
  if kind = some .directory then return true else mkdirWithParents host depth dst

def mb2CopyDirectoryByPath (depth : Nat) (src dst : List UInt8) : Session Unit := do
  let kind ← statPath host src
  if kind = some .directory then do
    let there ← ensureDirectory host depth dst
    if there then do
      let names ← listPath host src
      copyEntries host src dst (names.getD [])
    else return ()
  else return ()

/-! ## The handlers -/

/-- `plist_get_string_val` on a string; a `NUL` in it fails the assertion. -/
def plistGetStringVal : Plist → Session (List UInt8)
  | .scalar (.string s) length => if length = strlen s then return cstr s else crash
  | _ => crash

def plistGetKeyVal : Plist → Session (List UInt8)
  | .scalar (.key s) length => if length = strlen s then return cstr s else crash
  | _ => crash

/-- `plist_get_node_type(node) == PLIST_STRING`. -/
def isString : Plist → Bool
  | .scalar (.string _) _ => true
  | _ => false

/-- `plist_array_get_item` on the message. -/
def item (message : List Plist) (n : Nat) : Plist := message.getD n (.dict [])

/-- The items of an array. -/
def arrayItems : Plist → List Plist
  | .array children => children
  | _ => []

/-- The children of a dictionary. -/
def dictChildren : Plist → List Plist
  | .dict children => children
  | _ => []

/-- A path in the backup directory. -/
def Host.path (str : List UInt8) : List UInt8 := stringBuildPath host.backupDir [str]

/-- `mb2_handle_send_file`; `true` stands for 0. -/
def mb2HandleSendFile (path : List UInt8) : Session Bool := do
  let taken ← ask host.takesName
  if taken then do
    let localfile := host.path path
    let size ← ask fun n => host.size n localfile
    let kind ← statPath host localfile
    if kind = none then return false
    else if size = 0 then return true
    else do
      let opened ← openRead host localfile
      if opened then ask host.takesData else return false
  else return false

/-- The loop of `mb2_handle_send_files`. -/
def mb2HandleSendFiles : List Plist → Session Unit
  | [] => pure ()
  | val :: files =>
    if isString val then do
      let str ← plistGetStringVal val
      let sent ← mb2HandleSendFile host str
      if sent then mb2HandleSendFiles files else return ()
    else mb2HandleSendFiles files

/-- The calls of `mb2_handle_receive_files`: every file is removed and opened.  If the stream breaks
off, there may be a file that is only removed. -/
def receiveFiles (names : List (List UInt8)) (leftover : Option (List UInt8)) : Session Unit := do
  names.forM fun name => do
    let _ ← removePath host (host.path name)
    let _ ← openWrite host (host.path name)
    return ()
  leftover.toList.forM fun name => do
    let _ ← removePath host (host.path name)
    return ()

/-- The loop of `mb2_handle_list_directory`: every entry is looked at. -/
def listEntries (path : List UInt8) (names : List Name) : Session Unit :=
  (names.filter fun name => !isSelfOrParent name).forM fun name => do
    let _ ← statPath host (stringBuildPath path [name])
    return ()

def mb2HandleListDirectory (dir : Plist) : Session Unit :=
  if isString dir then do
    let str ← plistGetStringVal dir
    let names ← listPath host (host.path str)
    listEntries host (host.path str) (names.getD [])
  else pure ()

def mb2HandleMakeDirectory (depth : Nat) (dir : Plist) : Session Unit := do
  let str ← plistGetStringVal dir
  let _ ← mkdirWithParents host depth (host.path str)
  return ()

/-- One item of a move; `true` if the loop goes on. -/
def moveItem (depth : Nat) (key : List UInt8) (val : Plist) : Session Bool :=
  if isString val then do
    let str ← plistGetStringVal val
    let _ ← removeAny host depth (host.path str)
    let res ← renamePath host (host.path key) (host.path str)
    return decide (res = 0)
  else return true

/-- The loop over the moves. -/
def moveItems (depth : Nat) : List Plist → Session Unit
  | key :: val :: moves => do
      let key ← plistGetKeyVal key
      let goesOn ← moveItem host depth key val
      if goesOn then moveItems depth moves else return ()
  | _ => pure ()

/-- The loop over what is to be removed. -/
def removeItems (depth : Nat) (removes : List Plist) : Session Unit :=
  removes.forM fun val =>
    if isString val then do
      let str ← plistGetStringVal val
      let _ ← removeAny host depth (host.path str)
      return ()
    else pure ()

/-- The copy, when the paths are known. -/
def copyPath (depth : Nat) (oldpath newpath : List UInt8) : Session Unit := do
  let kind ← statPath host oldpath
  if kind = some .directory then mb2CopyDirectoryByPath host depth oldpath newpath
  else do
    let kind ← statPath host oldpath
    if kind = some .regular then mb2CopyFileByPath host oldpath newpath else return ()

/-- The branch of `DLMessageCopyItem`. -/
def copyItem (depth : Nat) (srcpath dstpath : Plist) : Session Unit :=
  if isString srcpath ∧ isString dstpath then do
    let src ← plistGetStringVal srcpath
    let dst ← plistGetStringVal dstpath
    copyPath host depth (host.path src) (host.path dst)
  else pure ()

/-- The requests.  An upload has the names of its files with it. -/
inductive Dlmsg where
  | downloadFiles
  | uploadFiles (names : List (List UInt8)) (leftover : Option (List UInt8))
  | contentsOfDirectory
  | createDirectory
  | moveItems
  | removeItems
  | copyItem

/-- A request: its name, and the array that it comes in. -/
structure Request where
  dlmsg : Dlmsg
  message : List Plist

/-- A turn of the main loop. -/
def handleRequest (depth : Nat) (request : Request) : Session Unit :=
  let message := request.message
  match request.dlmsg with
  | .downloadFiles =>
    if message.length < 2 then pure () else mb2HandleSendFiles host (arrayItems (item message 1))
  | .uploadFiles names leftover =>
    if message.length < 4 then pure () else receiveFiles host names leftover
  | .contentsOfDirectory =>
    if message.length < 2 then pure () else mb2HandleListDirectory host (item message 1)
  | .createDirectory =>
    if message.length < 2 then pure () else mb2HandleMakeDirectory host depth (item message 1)
  | .moveItems => moveItems host depth (dictChildren (item message 1))
  | .removeItems => removeItems host depth (arrayItems (item message 1))
  | .copyItem => copyItem host depth (item message 1) (item message 2)

/-- The requests of a session. -/
def handleRequests (depth : Nat) (requests : List Request) : Session Unit :=
  requests.forM (handleRequest host depth)

end Helpers

/-! ## Texts of paths -/

section Texts

/-- Where a text may be cut: before a slash. -/
def Cut (s' s : List UInt8) : Prop := s' = s ∨ ∃ u, s = s' ++ slash :: u

theorem Cut.trans {a b c : List UInt8} (h : Cut a b) (h' : Cut b c) : Cut a c := by
  rcases h with rfl | ⟨u, rfl⟩
  · exact h'
  · rcases h' with rfl | ⟨v, rfl⟩
    · exact .inr ⟨u, rfl⟩
    · exact .inr ⟨u ++ slash :: v, by rw [append_assoc, cons_append]⟩

theorem Cut.names {s' s : List UInt8} (h : Cut s' s) :
    ∃ k, s'.splitOn slash = (s.splitOn slash).take k := by
  rcases h with rfl | ⟨u, rfl⟩
  · exact ⟨_, (take_length).symm⟩
  · rw [splitOn_append_cons_self]
    exact ⟨_, (take_left' rfl).symm⟩

theorem rdropWhile_append (p : UInt8 → Bool) (xs ys : List UInt8) :
    (xs ++ ys).rdropWhile p =
      if ys.rdropWhile p = [] then xs.rdropWhile p else xs ++ ys.rdropWhile p := by
  rw [List.rdropWhile, reverse_append, dropWhile_append, List.rdropWhile, List.rdropWhile]
  by_cases hnil : List.dropWhile p ys.reverse = []
  · rw [hnil]
    rfl
  · rw [if_neg (by simpa using hnil), if_neg (by simpa using hnil), reverse_append, reverse_reverse]

theorem rdropWhile_append_slash (p : UInt8 → Bool) (xs ys : List UInt8) :
    (xs ++ slash :: ys).rdropWhile p =
      if ys.rdropWhile p = [] then (if p slash then xs.rdropWhile p else xs ++ [slash])
      else xs ++ slash :: ys.rdropWhile p := by
  have hcons : xs ++ slash :: ys = (xs ++ [slash]) ++ ys := by simp
  rw [hcons, rdropWhile_append, rdropWhile_concat]
  split
  · rfl
  · rw [append_assoc]
    rfl

theorem trimSlashes_cons {xs ys : List UInt8} :
    trimSlashes (xs ++ slash :: ys) =
      if trimSlashes ys = [] then trimSlashes xs else xs ++ slash :: trimSlashes ys := by
  rw [trimSlashes, rdropWhile_append_slash, if_pos (by rfl : decide (slash = slash) = true)]
  rfl

@[simp]
theorem trimSlashes_trimSlashes (xs : List UInt8) : trimSlashes (trimSlashes xs) = trimSlashes xs :=
  rdropWhile_idempotent ..

theorem cut_trimSlashes (s : List UInt8) : Cut (trimSlashes s) s := by
  have happ : trimSlashes s ++ s.rtakeWhile (· = slash) = s := rdropWhile_append_rtakeWhile ..
  cases hslashes : s.rtakeWhile (· = slash) with
  | nil =>
    rw [hslashes, append_nil] at happ
    exact .inl happ
  | cons c rest =>
    have hc : c = slash := by
      have hmem : c ∈ s.rtakeWhile (· = slash) := hslashes ▸ mem_cons_self
      simpa using mem_rtakeWhile_imp hmem
    rw [hslashes, hc] at happ
    exact .inr ⟨rest, happ.symm⟩

theorem cut_parent {t : List UInt8} (hne : trimSlashes (t.rdropWhile (· ≠ slash)) ≠ []) :
    Cut (trimSlashes (t.rdropWhile (· ≠ slash))) t := by
  obtain ⟨v, hv⟩ : ∃ v, v = t.rdropWhile (· ≠ slash) := ⟨_, rfl⟩
  have hlast : ∀ h : v ≠ [], v.getLast h = slash := by
    subst hv
    intro h
    simpa using rdropWhile_last_not (fun c => decide (c ≠ slash)) t h
  obtain ⟨w, hw⟩ : v <+: t := hv ▸ rdropWhile_prefix ..
  rw [← hv] at hne ⊢
  rcases cut_trimSlashes v with hself | ⟨r, hr⟩
  · -- `v` ends with a slash
    have hv_ne : v ≠ [] := by
      rintro rfl
      exact hne rfl
    exact absurd (by simpa using hlast hv_ne) (rdropWhile_eq_self_iff.mp hself hv_ne)
  · exact .inr ⟨r ++ w, by rw [← hw]; conv_lhs => rw [hr]; simp⟩

/-- **The parent** of a text behind that of a directory: cut at a slash, or the directory. -/
theorem dirname_cases {b s : List UInt8} (hb : b ≠ []) (hs : trimSlashes s ≠ []) :
    trimSlashes (dirname (b ++ slash :: s)) = trimSlashes b ∧ dirname (b ++ slash :: s) ≠ [] ∨
      ∃ s', Cut s' s ∧ dirname (b ++ slash :: s) = b ++ slash :: s' := by
  obtain ⟨t, ht⟩ : ∃ t, t = trimSlashes s := ⟨_, rfl⟩
  obtain ⟨v, hv⟩ : ∃ v, v = t.rdropWhile (· ≠ slash) := ⟨_, rfl⟩
  have htext : trimSlashes ((trimSlashes (b ++ slash :: s)).rdropWhile (· ≠ slash)) =
      if trimSlashes v = [] then trimSlashes b else b ++ slash :: trimSlashes v := by
    rw [trimSlashes_cons, if_neg hs, ← ht, rdropWhile_append_slash, ← hv]
    by_cases hnil : v = []
    · rw [if_pos hnil, if_neg (by simp), hnil, if_pos (by rfl), trimSlashes_cons]
      rfl
    · rw [if_neg hnil, trimSlashes_cons]
  rw [dirname, htext]
  by_cases hnone : trimSlashes v = []
  · rw [if_pos hnone]
    refine .inl ?_
    by_cases hroot : trimSlashes b = []
    · have hhead : (b ++ slash :: s).head? = some slash := by
        obtain ⟨c, rest, rfl⟩ := exists_cons_of_ne_nil hb
        have hc := rdropWhile_eq_nil_iff.mp hroot c mem_cons_self
        rw [cons_append, List.head?_cons, of_decide_eq_true hc]
      rw [if_neg (not_not.mpr hroot), if_pos hhead, hroot]
      exact ⟨rfl, cons_ne_nil _ _⟩
    · rw [if_pos hroot]
      exact ⟨trimSlashes_trimSlashes b, hroot⟩
  · rw [if_neg hnone, if_pos (by simp)]
    rw [hv] at hnone ⊢
    exact .inr ⟨_, (cut_parent hnone).trans (ht ▸ cut_trimSlashes s), rfl⟩

end Texts

/-! ## Below the backup directory -/

/-- The place of the backup directory. -/
def Host.root (host : Host) : Path := place host.cwd host.backupDir

/-- Every path that was touched leads below the backup directory. -/
def Host.Within (host : Host) (log : List FsCall) : Prop :=
  ∀ c ∈ log, ∀ path ∈ c.touches, Inside host.root (place host.cwd path)

/-- A part of the program that touches nothing else, as far as it gets. -/
def Host.Safe (host : Host) {α : Type} (m : Session α) : Prop := Preserves host.Within host.Within m

/-- A string of the device that names something below the backup directory. -/
def Host.Names (host : Host) (s : List UInt8) : Prop :=
  Inside host.root (resolve host.root ((cstr s).splitOn slash))

/-- A string whose directories can be made: on the way there is nothing beside the backup
directory. -/
def Host.Makes (host : Host) (s : List UInt8) : Prop :=
  ∀ k ≤ ((cstr s).splitOn slash).length,
    Inside host.root (resolve host.root (((cstr s).splitOn slash).take k)) ∨
      resolve host.root (((cstr s).splitOn slash).take k) <+: host.root

instance (host : Host) (s : List UInt8) : Decidable (host.Names s) :=
  inferInstanceAs (Decidable (Inside _ _))

instance (host : Host) (s : List UInt8) : Decidable (host.Makes s) :=
  inferInstanceAs (Decidable (∀ k ≤ _, _ ∨ _))

variable {log : List FsCall}

/-- A path to work with. -/
structure Host.Below (host : Host) (path : List UInt8) : Prop where
  ne : path ≠ []
  nul : NulFree path
  inside : Inside host.root (place host.cwd path)

section Safety

variable {host : Host} {path : List UInt8} {α : Type}

theorem stringBuildPath_pair (dir name : List UInt8) :
    stringBuildPath dir [name] = cstr dir ++ slash :: cstr name := rfl

theorem Host.path_eq (host : Host) (s : List UInt8) :
    host.path s = host.backupDir ++ slash :: cstr s := by
  rw [Host.path, stringBuildPath_pair, cstr_of_nulFree host.backupDir_nul]

theorem place_path (host : Host) (s : List UInt8) :
    place host.cwd (host.path s) = resolve host.root ((cstr s).splitOn slash) := by
  rw [Host.path_eq, place_append _ host.backupDir_ne, Host.root]

variable {s : List UInt8}

theorem Host.Names.below (h : host.Names s) : host.Below (host.path s) where
  ne := by
    rw [Host.path_eq]
    exact append_ne_nil_of_right_ne_nil _ (cons_ne_nil _ _)
  nul := by
    rw [Host.path_eq]
    intro c hc
    rcases mem_append.mp hc with hc | hc
    · exact host.backupDir_nul c hc
    · rcases mem_cons.mp hc with rfl | hc
      · decide
      · exact nulFree_cstr s c hc
  inside := by
    rw [place_path]
    exact h

theorem Host.Below.child (h : host.Below path) {name : Name} (hname : name ≠ [])
    (hslash : slash ∉ name) (hnul : NulFree name) (hdots : isSelfOrParent name = false) :
    host.Below (stringBuildPath path [name]) := by
  have hbuild : stringBuildPath path [name] = path ++ slash :: name := by
    rw [stringBuildPath_pair, cstr_of_nulFree h.nul, cstr_of_nulFree hnul]
  rw [hbuild]
  refine ⟨append_ne_nil_of_right_ne_nil _ (cons_ne_nil _ _), ?_, ?_⟩
  · intro c hc
    rcases mem_append.mp hc with hc | hc
    · exact h.nul c hc
    · rcases mem_cons.mp hc with rfl | hc
      · decide
      · exact hnul c hc
  · have hplain : isDots name = false := by
      rw [isSelfOrParent, decide_eq_false_iff_not] at hdots
      rw [isDots, decide_eq_false_iff_not]
      rintro (rfl | hdot)
      · exact hname rfl
      · exact hdots hdot
    rw [place_child _ h.ne hslash hplain]
    exact h.inside.child name

/-! ### Calls -/

theorem Host.Within.append {c : FsCall} (h : host.Within log)
    (hc : ∀ path ∈ c.touches, Inside host.root (place host.cwd path)) :
    host.Within (log ++ [c]) := by
  intro d hd
  rcases mem_append.mp hd with hd | hd
  · exact h d hd
  · rw [mem_singleton.mp hd]
    exact hc

theorem safe_call {answer : List FsCall → α} {c : List FsCall → FsCall}
    (hc : ∀ log, ∀ path ∈ (c log).touches, Inside host.root (place host.cwd path)) :
    host.Safe (fun log => .ok (answer log, log ++ [c log]) : Session α) :=
  fun log hlog => hlog.append (hc log)

theorem Host.Below.touches (h : host.Below path) :
    ∀ p ∈ [path], Inside host.root (place host.cwd p) := by
  intro p hp
  rw [mem_singleton.mp hp]
  exact h.inside

theorem safe_crash : host.Safe (crash : Session α) := fun _ hlog => hlog

theorem safe_ask (answer : Nat → α) : host.Safe (ask answer) := fun _ hlog => hlog

theorem safe_statPath (h : host.Below path) : host.Safe (statPath host path) :=
  safe_call fun _ => h.touches

theorem safe_openRead (h : host.Below path) : host.Safe (openRead host path) :=
  safe_call fun _ => h.touches

theorem safe_openWrite (h : host.Below path) : host.Safe (openWrite host path) :=
  safe_call fun _ => h.touches

theorem safe_removePath (h : host.Below path) : host.Safe (removePath host path) :=
  safe_call fun _ => h.touches

theorem safe_renamePath {old new : List UInt8} (hold : host.Below old) (hnew : host.Below new) :
    host.Safe (renamePath host old new) :=
  safe_call fun _ p hp => by
    rcases mem_cons.mp hp with rfl | hp
    · exact hold.inside
    · exact hnew.touches p hp

theorem listPath_meets (h : host.Below path) (hlog : host.Within log) :
    Meets (listPath host path) log
      (fun names log' => host.Within log' ∧ ∀ name ∈ names.getD [], isSelfOrParent name = false →
        ∀ dir, host.Below dir → host.Below (stringBuildPath dir [name])) host.Within := by
  refine ⟨hlog.append h.touches, ?_⟩
  intro name hname hdots dir hdir
  cases hnames : host.readdir log.length path with
  | none =>
    rw [hnames] at hname
    cases hname
  | some names =>
    rw [hnames] at hname
    obtain ⟨hne, hslash, hnul⟩ := host.readdir_name _ _ _ hnames name hname
    exact hdir.child hne hslash hnul hdots

/-! ### Making directories -/

/-- The paths that `mkdir_with_parents` comes to: the backup directory, and cuts of the string. -/
def Host.OnTheWay (host : Host) (s path : List UInt8) : Prop :=
  trimSlashes path = trimSlashes host.backupDir ∧ path ≠ [] ∨
    ∃ s', Cut s' (cstr s) ∧ path = host.backupDir ++ slash :: s'

theorem onTheWay_path (host : Host) (s : List UInt8) : host.OnTheWay s (host.path s) :=
  .inr ⟨cstr s, .inl rfl, host.path_eq s⟩

theorem Host.OnTheWay.dirname (h : host.OnTheWay s path)
    (hne : trimSlashes path ≠ trimSlashes host.backupDir) : host.OnTheWay s (dirname path) := by
  rcases h with ⟨htrim, -⟩ | ⟨s', hcut, rfl⟩
  · exact absurd htrim hne
  · have hs' : trimSlashes s' ≠ [] := by
      intro hnil
      rw [trimSlashes_cons, if_pos hnil] at hne
      exact hne rfl
    rcases dirname_cases host.backupDir_ne hs' with hroot | ⟨s'', hcut', heq⟩
    · exact .inl hroot
    · exact .inr ⟨s'', hcut'.trans hcut, heq⟩

theorem Host.OnTheWay.made (hdir : host.HasBackupDir) (h : host.OnTheWay s path)
    (hs : host.Makes s) {n : Nat} (hmade : host.mkdir n path = .made) :
    Inside host.root (place host.cwd path) := by
  rcases h with ⟨htrim, hne⟩ | ⟨s', hcut, rfl⟩
  · rw [hdir.there n path hne htrim] at hmade
    cases hmade
  · obtain ⟨k, hk⟩ := hcut.names
    have hplace : place host.cwd (host.backupDir ++ slash :: s') =
        resolve host.root (((cstr s).splitOn slash).take k) := by
      rw [place_append _ host.backupDir_ne, hk, Host.root]
    have hway := hs (min k ((cstr s).splitOn slash).length) (Nat.min_le_right _ _)
    rw [← take_eq_take_min] at hway
    rcases hway with hin | habove
    · rw [hplace]
      exact hin
    · rw [← hplace] at habove
      exact absurd hmade (hdir.above n _ habove)

theorem makePath_meets (hdir : host.HasBackupDir) (h : host.OnTheWay s path) (hs : host.Makes s)
    (hlog : host.Within log) :
    Meets (makePath host path) log
      (fun result log' => host.Within log' ∧ (result = .failed → host.OnTheWay s (dirname path)))
      host.Within := by
  refine ⟨hlog.append ?_, fun hfailed => h.dirname fun htrim => ?_⟩
  · intro p hp
    by_cases hmade : host.mkdir log.length path = .made
    · rw [FsCall.touches, if_pos (decide_eq_true hmade), mem_singleton] at hp
      rw [hp]
      exact h.made hdir hs hmade
    · rw [FsCall.touches, if_neg (by simpa using hmade)] at hp
      cases hp
  · have hne : path ≠ [] := by
      rcases h with ⟨-, hne⟩ | ⟨s', -, rfl⟩
      · exact hne
      · exact append_ne_nil_of_right_ne_nil _ (cons_ne_nil _ _)
    rw [hdir.there _ _ hne htrim] at hfailed
    cases hfailed

theorem safe_mkdirWithParents (hdir : host.HasBackupDir) (hs : host.Makes s) (depth : Nat)
    (h : host.OnTheWay s path) : host.Safe (mkdirWithParents host depth path) := by
  induction depth generalizing path with
  | zero => exact safe_crash
  | succ depth ih =>
    intro log hlog
    rw [mkdirWithParents]
    refine (makePath_meets hdir h hs hlog).bind fun result log' ⟨hlog', hfailed⟩ => ?_
    by_cases hres : result ≠ .failed
    · rw [if_pos hres]
      exact hlog'
    · rw [if_neg hres]
      refine Preserves.bind (ih (hfailed (not_not.mp hres))) (fun res => ?_) log' hlog'
      cases res with
      | false => exact preserves_pure _
      | true => exact (ih h).bind fun _ => preserves_pure _

end Safety

/-! ## The handlers -/

/-- The strings among some items. -/
def stringsOf (items : List Plist) : List (List UInt8) :=
  items.filterMap fun
    | .scalar (.string s) _ => some s
    | _ => none

/-- What is moved, and where to. -/
def movedPair : Plist → Plist → List (List UInt8)
  | .scalar (.key old) _, .scalar (.string new) _ => [old, new]
  | _, _ => []

/-- The names in a dictionary of moves. -/
def movedNames : List Plist → List (List UInt8)
  | key :: val :: moves => movedPair key val ++ movedNames moves
  | _ => []

/-- The strings of a request that name files. -/
def Request.names (request : Request) : List (List UInt8) :=
  match request.dlmsg with
  | .downloadFiles | .removeItems => stringsOf (arrayItems (item request.message 1))
  | .uploadFiles names leftover => names ++ leftover.toList
  | .contentsOfDirectory => stringsOf [item request.message 1]
  | .createDirectory => []
  | .moveItems => movedNames (dictChildren (item request.message 1))
  | .copyItem => stringsOf [item request.message 1, item request.message 2]

/-- The strings of a request that name directories to be made. -/
def Request.makes (request : Request) : List (List UInt8) :=
  match request.dlmsg with
  | .createDirectory => stringsOf [item request.message 1]
  | .copyItem => stringsOf [item request.message 2]
  | _ => []

/-- A request that asks for nothing outside. -/
structure Host.Confines (host : Host) (request : Request) : Prop where
  names : ∀ s ∈ request.names, host.Names s
  makes : ∀ s ∈ request.makes, host.Makes s

section Handlers

variable {host : Host} {path : List UInt8} (depth : Nat)

theorem safe_removeEntry {rmdir : List UInt8 → Session Nat}
    (hrmdir : ∀ path, host.Below path → host.Safe (rmdir path)) (h : host.Below path)
    (kind : Option FileKind) : host.Safe (removeEntry host rmdir path kind) := by
  cases kind with
  | none => exact preserves_pure 2
  | some kind =>
    cases kind with
    | directory => exact hrmdir path h
    | regular => exact safe_removePath h
    | other => exact safe_removePath h

variable {names : List Name}

theorem safe_rmdirEntries {rmdir : List UInt8 → Session Nat}
    (hrmdir : ∀ path, host.Below path → host.Safe (rmdir path)) (h : host.Below path)

    (hnames : ∀ name ∈ names, isSelfOrParent name = false →
      ∀ dir, host.Below dir → host.Below (stringBuildPath dir [name])) :
    host.Safe (rmdirEntries host rmdir path names) := by
  induction names with
  | nil => exact preserves_pure 0
  | cons name names ih =>
    have hrest := ih fun name' hmem => hnames name' (mem_cons_of_mem name hmem)
    rw [rmdirEntries]
    split
    · exact hrest
    · next hdots =>
        have hbelow := hnames name mem_cons_self (by simpa using hdots) path h
        refine (safe_statPath hbelow).bind fun kind => ?_
        refine (safe_removeEntry hrmdir hbelow kind).bind fun res => ?_
        split
        · exact preserves_pure _
        · exact hrest

theorem safe_rmdirRecursive (h : host.Below path) : host.Safe (rmdirRecursive host depth path) := by
  induction depth generalizing path with
  | zero => exact safe_crash
  | succ depth ih =>
    intro log hlog
    rw [rmdirRecursive]
    refine (listPath_meets h hlog).bind fun names log' ⟨hlog', hnames⟩ => ?_
    have hentries : host.Safe (rmdirEntries host (rmdirRecursive host depth) path (names.getD [])) :=
      safe_rmdirEntries (fun path hpath => ih hpath) h hnames
    refine Preserves.bind hentries (fun res => ?_) log' hlog'
    split
    · exact preserves_pure _
    · exact safe_removePath h

theorem safe_removeAny (h : host.Below path) : host.Safe (removeAny host depth path) := by
  refine (safe_statPath h).bind fun kind => ?_
  split
  · exact safe_rmdirRecursive depth h
  · exact safe_removePath h

variable {src dst : List UInt8}

theorem safe_mb2CopyFileByPath (hsrc : host.Below src) (hdst : host.Below dst) :
    host.Safe (mb2CopyFileByPath host src dst) := by
  refine (safe_openRead hsrc).bind fun opened => ?_
  split
  · exact (safe_openWrite hdst).bind fun _ => preserves_pure _
  · exact preserves_pure _

theorem safe_copyEntries (hsrc : host.Below src) (hdst : host.Below dst)

    (hnames : ∀ name ∈ names, isSelfOrParent name = false →
      ∀ dir, host.Below dir → host.Below (stringBuildPath dir [name])) :
    host.Safe (copyEntries host src dst names) := by
  refine Preserves.forM fun name hname => ?_
  obtain ⟨hmem, hdots⟩ := mem_filter.mp hname
  have hchild := hnames name hmem (by simpa using hdots)
  exact safe_mb2CopyFileByPath (hchild src hsrc) (hchild dst hdst)

variable {s : List UInt8}

theorem safe_ensureDirectory (hdir : host.HasBackupDir) (hs : host.Makes s)
    (h : host.Below (host.path s)) : host.Safe (ensureDirectory host depth (host.path s)) := by
  refine (safe_statPath h).bind fun kind => ?_
  split
  · exact preserves_pure _
  · exact safe_mkdirWithParents hdir hs depth (onTheWay_path host s)

theorem safe_mb2CopyDirectoryByPath (hdir : host.HasBackupDir) (hsrc : host.Below src)
    (hs : host.Makes s) (hdst : host.Below (host.path s)) :
    host.Safe (mb2CopyDirectoryByPath host depth src (host.path s)) := by
  refine (safe_statPath hsrc).bind fun kind => ?_
  split
  · refine (safe_ensureDirectory depth hdir hs hdst).bind fun there => ?_
    split
    · intro log hlog
      refine (listPath_meets hsrc hlog).bind fun names log' ⟨hlog', hnames⟩ => ?_
      exact safe_copyEntries hsrc hdst hnames log' hlog'
    · exact preserves_pure _
  · exact preserves_pure _

theorem plistGetStringVal_meets (val : Plist) {log : List FsCall} (hlog : host.Within log) :
    Meets (plistGetStringVal val) log
      (fun str log' => host.Within log' ∧ ∃ s ∈ stringsOf [val], str = cstr s) host.Within := by
  rw [plistGetStringVal.eq_def]
  split
  · split
    · exact ⟨hlog, _, mem_singleton_self _, rfl⟩
    · exact hlog
  · exact hlog

theorem names_cstr : host.Names (cstr s) ↔ host.Names s := by
  rw [Host.Names, Host.Names, cstr_cstr]

theorem makes_cstr : host.Makes (cstr s) ↔ host.Makes s := by
  rw [Host.Makes, Host.Makes, cstr_cstr]

theorem safe_withString {val : Plist} {P : List UInt8 → Prop} {α : Type}
    {f : List UInt8 → Session α} (hval : ∀ s ∈ stringsOf [val], P (cstr s))
    (hf : ∀ str, P str → host.Safe (f str)) : host.Safe (plistGetStringVal val >>= f) := by
  intro log hlog
  refine (plistGetStringVal_meets val hlog).bind ?_
  rintro _ log' ⟨hlog', s, hs, rfl⟩
  exact hf _ (hval s hs) log' hlog'

theorem safe_mb2HandleSendFile {str : List UInt8} (h : host.Names str) :
    host.Safe (mb2HandleSendFile host str) := by
  refine (safe_ask _).bind fun taken => ?_
  split
  · refine (safe_ask _).bind fun size => (safe_statPath h.below).bind fun kind => ?_
    split
    · exact preserves_pure _
    · split
      · exact preserves_pure _
      · refine (safe_openRead h.below).bind fun opened => ?_
        split
        · exact safe_ask _
        · exact preserves_pure _
  · exact preserves_pure _

theorem stringsOf_cons (val : Plist) (items : List Plist) :
    stringsOf (val :: items) = stringsOf [val] ++ stringsOf items := by
  rw [stringsOf, stringsOf, stringsOf, ← filterMap_append, singleton_append]

theorem safe_mb2HandleSendFiles {files : List Plist} (h : ∀ s ∈ stringsOf files, host.Names s) :
    host.Safe (mb2HandleSendFiles host files) := by
  induction files with
  | nil => exact preserves_pure _
  | cons val files ih =>
    rw [stringsOf_cons] at h
    have hrest := ih fun s hs => h s (mem_append_right _ hs)
    rw [mb2HandleSendFiles]
    split
    · refine safe_withString (P := host.Names)
        (fun s hs => names_cstr.mpr (h s (mem_append_left _ hs))) fun str hstr => ?_
      refine (safe_mb2HandleSendFile hstr).bind fun sent => ?_
      split
      · exact hrest
      · exact preserves_pure _
    · exact hrest

theorem safe_receiveFiles {names : List (List UInt8)} {leftover : Option (List UInt8)}
    (h : ∀ s ∈ names ++ leftover.toList, host.Names s) :
    host.Safe (receiveFiles host names leftover) := by
  have hnames : host.Safe (names.forM fun name => do
      let _ ← removePath host (host.path name)
      let _ ← openWrite host (host.path name)
      return ()) := by
    refine Preserves.forM fun name hname => ?_
    have hbelow := (h name (mem_append_left _ hname)).below
    exact (safe_removePath hbelow).bind fun _ =>
      (safe_openWrite hbelow).bind fun _ => preserves_pure _
  refine hnames.bind fun _ => Preserves.forM fun name hname => ?_
  exact (safe_removePath (h name (mem_append_right _ hname)).below).bind fun _ =>
    preserves_pure _

theorem safe_listEntries (h : host.Below path)
    (hnames : ∀ name ∈ names, isSelfOrParent name = false →
      ∀ dir, host.Below dir → host.Below (stringBuildPath dir [name])) :
    host.Safe (listEntries host path names) := by
  refine Preserves.forM fun name hname => ?_
  obtain ⟨hmem, hdots⟩ := mem_filter.mp hname
  exact (safe_statPath (hnames name hmem (by simpa using hdots) path h)).bind fun _ =>
    preserves_pure _

theorem safe_mb2HandleListDirectory {dir : Plist} (h : ∀ s ∈ stringsOf [dir], host.Names s) :
    host.Safe (mb2HandleListDirectory host dir) := by
  rw [mb2HandleListDirectory]
  split
  · refine safe_withString (P := host.Names) (fun s hs => names_cstr.mpr (h s hs)) fun str hstr => ?_
    intro log hlog
    refine (listPath_meets hstr.below hlog).bind fun names log' ⟨hlog', hnames⟩ => ?_
    exact safe_listEntries hstr.below hnames log' hlog'
  · exact preserves_pure _

theorem safe_mb2HandleMakeDirectory (hdir : host.HasBackupDir) {dir : Plist}
    (h : ∀ s ∈ stringsOf [dir], host.Makes s) : host.Safe (mb2HandleMakeDirectory host depth dir) :=
  safe_withString (P := host.Makes) (fun s hs => makes_cstr.mpr (h s hs)) fun str hstr =>
    (safe_mkdirWithParents hdir hstr depth (onTheWay_path host str)).bind fun _ => preserves_pure _

theorem safe_moveItem {key val : Plist} {k : List UInt8} {length : Nat}
    (hkey : key = .scalar (.key k) length) (hpair : ∀ s ∈ movedPair key val, host.Names s) :
    host.Safe (moveItem host depth (cstr k) val) := by
  rw [moveItem]
  split
  · next hstring =>
      rw [isString.eq_def] at hstring
      split at hstring
      · next s length' =>
          rw [hkey, movedPair] at hpair
          have hold := names_cstr.mpr (hpair k mem_cons_self)
          have hnew := hpair s (mem_cons_of_mem k mem_cons_self)
          refine safe_withString (P := host.Names) (fun s' hs' => ?_) fun str hstr => ?_
          · rw [mem_singleton.mp hs']
            exact names_cstr.mpr hnew
          · exact (safe_removeAny depth hstr.below).bind fun _ =>
              (safe_renamePath hold.below hstr.below).bind fun _ => preserves_pure _
      · cases hstring
  · exact preserves_pure _

theorem plistGetKeyVal_meets (key : Plist) {log : List FsCall} (hlog : host.Within log) :
    Meets (plistGetKeyVal key) log
      (fun str log' => host.Within log' ∧ ∃ k length, key = .scalar (.key k) length ∧ str = cstr k)
      host.Within := by
  rw [plistGetKeyVal.eq_def]
  split
  · split
    · exact ⟨hlog, _, _, rfl, rfl⟩
    · exact hlog
  · exact hlog

theorem safe_moveItems (moves : List Plist) (h : ∀ s ∈ movedNames moves, host.Names s) :
    host.Safe (moveItems host depth moves) := by
  induction moves using movedNames.induct with
  | case1 key val moves ih =>
    rw [movedNames] at h
    intro log hlog
    rw [moveItems]
    refine (plistGetKeyVal_meets key hlog).bind ?_
    rintro _ log' ⟨hlog', k, length, hkey, rfl⟩
    refine Preserves.bind (safe_moveItem depth hkey fun s hs => h s (mem_append_left _ hs))
      (fun goesOn => ?_) log' hlog'
    split
    · exact ih fun s hs => h s (mem_append_right _ hs)
    · exact preserves_pure _
  | case2 moves hshort =>
    rw [moveItems.eq_def]
    split
    · exact absurd rfl (hshort _ _ _)
    · exact preserves_pure _

theorem safe_removeItems {removes : List Plist} (h : ∀ s ∈ stringsOf removes, host.Names s) :
    host.Safe (removeItems host depth removes) := by
  refine Preserves.forM fun val hval => ?_
  split
  · refine safe_withString (P := host.Names) (fun s hs => names_cstr.mpr (h s ?_)) fun str hstr =>
      (safe_removeAny depth hstr.below).bind fun _ => preserves_pure _
    obtain ⟨v, hv, hs⟩ := mem_filterMap.mp hs
    rw [mem_singleton.mp hv] at hs
    exact mem_filterMap.mpr ⟨val, hval, hs⟩
  · exact preserves_pure _

theorem safe_copyPath (hdir : host.HasBackupDir) (hsrc : host.Names src) (hdst : host.Names dst)
    (hmakes : host.Makes dst) : host.Safe (copyPath host depth (host.path src) (host.path dst)) := by
  refine (safe_statPath hsrc.below).bind fun kind => ?_
  split
  · exact safe_mb2CopyDirectoryByPath depth hdir hsrc.below hmakes hdst.below
  · refine (safe_statPath hsrc.below).bind fun kind => ?_
    split
    · exact safe_mb2CopyFileByPath hsrc.below hdst.below
    · exact preserves_pure _

theorem safe_copyItem (hdir : host.HasBackupDir) {src dst : Plist}
    (hnames : ∀ s ∈ stringsOf [src, dst], host.Names s)
    (hmakes : ∀ s ∈ stringsOf [dst], host.Makes s) : host.Safe (copyItem host depth src dst) := by
  rw [stringsOf_cons] at hnames
  rw [copyItem]
  split
  · refine safe_withString (P := host.Names)
      (fun s hs => names_cstr.mpr (hnames s (mem_append_left _ hs))) fun src hsrc => ?_
    refine safe_withString (P := fun s => host.Names s ∧ host.Makes s)
      (fun s hs => ⟨names_cstr.mpr (hnames s (mem_append_right _ hs)),
        makes_cstr.mpr (hmakes s hs)⟩) fun dst hdst => ?_
    exact safe_copyPath depth hdir hsrc hdst.1 hdst.2
  · exact preserves_pure _

theorem safe_unlessShort {message : List Plist} {n : Nat} {m : Session Unit} (h : host.Safe m) :
    host.Safe (if message.length < n then pure () else m) := by
  split
  · exact preserves_pure _
  · exact h

/-- **A request** that asks for nothing outside touches nothing outside. -/
theorem safe_handleRequest (hdir : host.HasBackupDir) {request : Request}
    (h : host.Confines request) : host.Safe (handleRequest host depth request) := by
  obtain ⟨dlmsg, message⟩ := request
  obtain ⟨hnames, hmakes⟩ := h
  cases dlmsg with
  | downloadFiles => exact safe_unlessShort (safe_mb2HandleSendFiles hnames)
  | uploadFiles names leftover => exact safe_unlessShort (safe_receiveFiles hnames)
  | contentsOfDirectory => exact safe_unlessShort (safe_mb2HandleListDirectory hnames)
  | createDirectory => exact safe_unlessShort (safe_mb2HandleMakeDirectory depth hdir hmakes)
  | moveItems => exact safe_moveItems depth _ hnames
  | removeItems => exact safe_removeItems depth hnames
  | copyItem => exact safe_copyItem depth hdir hnames hmakes

/-- **Confinement.**  If the backup directory exists, the strings of all requests name what lies
below it, and the directories to be made have nothing beside it on their way, every path that is
touched lies below the backup directory, up to the end or to a crash. -/
theorem requests_confined (host : Host) (hdir : host.HasBackupDir) (depth : Nat)
    {requests : List Request} (h : ∀ request ∈ requests, host.Confines request) :
    Meets (handleRequests host depth requests) [] (fun _ log => host.Within log) host.Within :=
  Preserves.forM (fun request hmem => safe_handleRequest depth hdir (h request hmem)) []
    fun _ hc => absurd hc not_mem_nil

end Handlers

/-! ## Uploads -/

section Uploads

variable {seg : Segmentation} {stream : List UInt8} {canOpen : Nat → Bool}

/-- The calls behind what is noted of a reception. -/
def FileCall.fsCalls : FileCall → List FsCall
  | .remove path => [.remove path]
  | .refused path | .saved path _ => [.openWrite path]
  | .statusResponse => []

/-- The calls for the files of an upload. -/
def fileCalls (host : Host) (names : List (List UInt8)) : List FsCall :=
  names.flatMap fun name => [.remove (host.path name), .openWrite (host.path name)]

theorem receiveFiles_eq (host : Host) (names : List (List UInt8)) (leftover : Option (List UInt8)) :
    receiveFiles host names leftover [] =
      .ok ((), fileCalls host names ++ leftover.toList.map fun name => .remove (host.path name)) := by
  have hnames : ∀ log, (names.forM fun name => do
      let _ ← removePath host (host.path name)
      let _ ← openWrite host (host.path name)
      return () : Session Unit) log = .ok ((), log ++ fileCalls host names) := by
    induction names with
    | nil => exact fun log => by rw [fileCalls, flatMap_nil, append_nil]; rfl
    | cons name names ih =>
      intro log
      refine (ih (log ++ [.remove (host.path name)] ++ [.openWrite (host.path name)])).trans ?_
      rw [append_assoc, append_assoc]
      rfl
  rw [receiveFiles, bind_eq_of_ok (hnames []), nil_append]
  cases leftover with
  | none => rw [Option.toList_none, map_nil, append_nil]; rfl
  | some name => rfl

/-! ### What a reception notes -/

/-- What was noted so far is kept. -/
def Notes (L : List FileCall) (s : Reception) : Prop := s.log = L

/-- No fault is excluded here. -/
abbrev anyFault : ReceptionFault → Prop := fun _ => True

variable {L : List FileCall}

theorem notes_receiveRaw (size length : Nat) :
    Preserves (Notes L) anyFault (mobilebackup2ReceiveRaw seg stream size length) := by
  intro s hs
  rw [Meets, mobilebackup2ReceiveRaw]
  split
  · exact hs
  · dsimp only
    split
    · trivial
    · exact hs

theorem notes_receiveR (size length : Nat) :
    Preserves (Notes L) anyFault (receiveR seg stream size length) := by
  refine (notes_receiveRaw size length).bind fun data => ?_
  exact Preserves.bind (preserves_modify fun _ hs => hs) fun _ => preserves_pure _

theorem notes_receiveBlock (blocksize fuel bdone : Nat) (content : List UInt8) :
    Preserves (Notes L) anyFault (receiveBlock seg stream blocksize fuel bdone content) := by
  induction fuel generalizing bdone content with
  | zero => exact preserves_pure _
  | succ fuel ih =>
    rw [receiveBlock]
    split
    · refine (notes_receiveR _ _).bind fun data => ?_
      split
      · exact preserves_pure _
      · exact ih _ _
    · exact preserves_pure _

theorem notes_receiveBlocks (fuel nlen : Nat) (code : UInt8) (content : List UInt8) :
    Preserves (Notes L) anyFault (receiveBlocks seg stream fuel nlen code content) := by
  induction fuel generalizing nlen code content with
  | zero => exact preserves_throw trivial
  | succ fuel ih =>
    rw [receiveBlocks]
    generalize pred32 nlen = blocksize
    by_cases hcode : code = CODE_FILE_DATA
    · rw [if_pos hcode]
      refine (notes_receiveBlock _ _ _ _).bind fun content => ?_
      refine (notes_receiveR _ _).bind fun data => ?_
      dsimp only
      split
      · exact Preserves.bind (notes_receiveR _ _) fun next => ih _ _ _
      · exact preserves_pure _
    · rw [if_neg hcode]
      exact preserves_pure _

theorem notes_receiveMessage (nlen : Nat) :
    Preserves (Notes L) anyFault (receiveMessage seg stream nlen) := by
  refine (notes_receiveR _ _).bind fun _ => preserves_get.bind fun s => ?_
  split
  · exact preserves_pure _
  · exact preserves_throw trivial

theorem notes_mb2ReceiveFilename :
    Preserves (Notes L) anyFault (mb2ReceiveFilename seg stream) := by
  refine (notes_receiveRaw _ _).bind fun data => ?_
  dsimp only
  split
  · exact preserves_pure _
  · split
    · exact preserves_throw trivial
    · split
      · exact preserves_pure _
      · refine (notes_receiveRaw _ _).bind fun filename => ?_
        split <;> exact preserves_pure _

theorem notes_closeEntry (bname : List UInt8) (nlen : Nat) (code : UInt8) :
    Preserves (Notes L) anyFault (closeEntry seg stream bname nlen code) := by
  rw [closeEntry]
  split
  · exact preserves_pure _
  · split
    · exact (notes_receiveMessage _).bind fun _ => preserves_pure _
    · exact preserves_pure _

/-! ### The files of a reception -/

/-- What was noted are the calls for some files. -/
def NotesFiles (host : Host) (s : Reception) : Prop :=
  ∃ names, s.log.flatMap FileCall.fsCalls = fileCalls host names

/-- If a turn leaves something of a record, there is a file to which it belongs. -/
def LeavesFile (host : Host) : TurnEnd → Prop
  | .again => True
  | .leave nlen bname => nlen = 0 ∨ ∃ name, bname = host.path name

variable (host : Host)

theorem flatMap_fsCalls_file {log : List FileCall} {names : List (List UInt8)} {name : List UInt8}
    {c : FileCall} (hlog : log.flatMap FileCall.fsCalls = fileCalls host names)
    (hc : c.fsCalls = [.openWrite (host.path name)]) :
    (log ++ [FileCall.remove (host.path name)] ++ [c]).flatMap FileCall.fsCalls =
      fileCalls host (names ++ [name]) := by
  rw [flatMap_append, flatMap_append, hlog, flatMap_singleton,
    flatMap_singleton, hc, fileCalls, fileCalls, flatMap_append, flatMap_singleton, append_assoc]
  rfl

variable {s : Reception}

theorem files_closeFile {log : List FileCall} {names : List (List UInt8)} (name : List UInt8)
    (hlog : log.flatMap FileCall.fsCalls = fileCalls host names) (f : Bool) (content : List UInt8)
    (hs : Notes (log ++ [.remove (host.path name)]) s) :
    Meets (closeFile (host.path name) f content) s
      (fun _ t => t.log.flatMap FileCall.fsCalls = fileCalls host (names ++ [name])) anyFault := by
  rw [Notes] at hs
  rw [closeFile, meets_modify]
  cases f with
  | true =>
    rw [if_pos rfl, hs]
    exact flatMap_fsCalls_file host hlog rfl
  | false =>
    rw [if_neg (by decide), hs]
    exact flatMap_fsCalls_file host hlog rfl

theorem closeEntry_leaves (name : List UInt8) (nlen : Nat) (code : UInt8) (s : Reception) :
    Meets (closeEntry seg stream (host.path name) nlen code) s (fun turn _ => LeavesFile host turn)
      anyFault := by
  rw [closeEntry]
  split
  · exact .inl rfl
  · split
    · exact Meets.bind (notes_receiveMessage nlen s rfl) fun _ _ _ => trivial
    · trivial

theorem files_storeFile (name : List UInt8) (nlen : Nat) (code : UInt8) (h : NotesFiles host s) :
    Meets (storeFile seg stream canOpen (host.path name) nlen code) s
      (fun turn t => NotesFiles host t ∧ LeavesFile host turn) anyFault := by
  obtain ⟨names, hs⟩ := h
  have hopen : Meets (openFile canOpen (host.path name)) s
      (fun _ t => Notes (s.log ++ [.remove (host.path name)]) t) anyFault := rfl
  refine hopen.bind fun f t ht => ?_
  have hblocks : Preserves (Notes (s.log ++ [.remove (host.path name)])) anyFault
      (receiveContent seg stream f nlen code) := by
    rw [receiveContent]
    split
    · exact notes_receiveBlocks _ _ _ _
    · exact preserves_pure _
  refine Meets.bind (hblocks t ht) fun r t ht => ?_
  refine (files_closeFile host name hs f r.2.2 ht).bind fun _ t ht => ?_
  refine ((notes_closeEntry _ _ _ t rfl).both (closeEntry_leaves host name r.1 r.2.1 t)).post ?_
  rintro turn t' ⟨ht', hturn⟩
  exact ⟨⟨names ++ [name], by rw [ht']; exact ht⟩, hturn⟩

theorem NotesFiles.of_notes {t : Reception} (h : NotesFiles host s) (ht : Notes s.log t) :
    NotesFiles host t := by
  obtain ⟨names, hs⟩ := h
  exact ⟨names, by rw [ht]; exact hs⟩

theorem files_receiveFile (name : List UInt8) (h : NotesFiles host s) :
    Meets (receiveFile seg stream canOpen (host.path name)) s
      (fun turn t => NotesFiles host t ∧ LeavesFile host turn) anyFault := by
  refine Meets.bind (notes_receiveR 4 4 s rfl) fun data t ht => ?_
  have hfiles := h.of_notes host ht
  split
  · exact ⟨hfiles, .inr ⟨name, rfl⟩⟩
  · refine Meets.bind (notes_receiveR 1 1 t rfl) fun first t' ht' => ?_
    have hfiles' := hfiles.of_notes host ht'
    split
    · exact ⟨hfiles', .inr ⟨name, rfl⟩⟩
    · exact files_storeFile host name _ _ hfiles'

theorem files_receiveEntry (h : NotesFiles host s) :
    Meets (receiveEntry seg stream canOpen host.backupDir) s
      (fun turn t => NotesFiles host t ∧ LeavesFile host turn) anyFault := by
  refine Meets.bind (notes_mb2ReceiveFilename s rfl) fun dname t ht => ?_
  have hfiles := h.of_notes host ht
  split
  · exact ⟨hfiles, .inl rfl⟩
  · refine Meets.bind (notes_mb2ReceiveFilename t rfl) fun fname t' ht' => ?_
    have hfiles' := hfiles.of_notes host ht'
    split
    · exact ⟨hfiles', .inl rfl⟩
    · exact files_receiveFile host _ hfiles'

theorem files_mb2ReceiveLoop (fuel : Nat) {s : Reception} (h : NotesFiles host s) :
    Meets (mb2ReceiveLoop seg stream canOpen host.backupDir fuel) s
      (fun r t => NotesFiles host t ∧ (r.1 = 0 ∨ ∃ name, r.2 = host.path name)) anyFault := by
  induction fuel generalizing s with
  | zero => trivial
  | succ fuel ih =>
    refine Meets.bind (files_receiveEntry host h) ?_
    rintro turn t ⟨hfiles, hturn⟩
    cases turn with
    | again => exact ih hfiles
    | leave nlen bname => exact ⟨hfiles, hturn⟩

/-- **Uploads.**  A reception that returns has made the calls for the names of some files, which may
be any bytes. -/
theorem receiveFiles_calls (message : Option Nat) (pos : Nat) :
    Meets (mb2HandleReceiveFiles seg stream canOpen host.backupDir message) ⟨pos, 0, 0, 0, []⟩
      (fun _ s => ∃ names leftover,
        receiveFiles host names leftover [] = .ok ((), s.log.flatMap FileCall.fsCalls)) anyFault := by
  have hnone : ∀ s : Reception, NotesFiles host s → ∃ names leftover,
      receiveFiles host names leftover [] = .ok ((), s.log.flatMap FileCall.fsCalls) := by
    rintro s ⟨names, hs⟩
    exact ⟨names, none, by rw [receiveFiles_eq, hs, Option.toList_none, map_nil, append_nil]⟩
  rw [mb2HandleReceiveFiles]
  split
  · exact hnone _ ⟨[], rfl⟩
  · refine Meets.bind (files_mb2ReceiveLoop host _ ⟨[], rfl⟩) ?_
    rintro ⟨nlen, bname⟩ t ⟨⟨names, ht⟩, hbname⟩
    dsimp only
    rw [discardLeftovers]
    split
    · next hleft =>
        obtain ⟨name, hname⟩ := hbname.resolve_left (by dsimp only; omega)
        refine Meets.bind (Meets.bind (notes_receiveR _ _ t rfl) fun _ t' ht' => ?_)
          (Q := fun _ t' => t'.log = t.log ++ [.remove (host.path name)]) fun _ t' ht' => ?_
        · rw [meets_modify, ht']
          dsimp only at hname
          rw [hname]
        · refine ⟨names, some name, ?_⟩
          dsimp only
          rw [receiveFiles_eq, ht', flatMap_append, flatMap_append, ht,
            flatMap_singleton, flatMap_singleton, FileCall.fsCalls, FileCall.fsCalls, append_nil]
          rfl
    · refine Meets.bind (Q := fun _ t' => t' = t) rfl fun _ t' ht' => ?_
      subst ht'
      refine hnone { t' with log := t'.log ++ [.statusResponse] } ⟨names, ?_⟩
      dsimp only
      rw [flatMap_append, ht]
      exact append_nil _

end Uploads

/-! ## Requests on a small disk -/

/-- A machine on which every file is of one kind, no directory has entries, and every call
succeeds. -/
def smallHost (kind : FileKind) : Host where
  cwd := [lit "home"]
  backupDir := lit "b"
  stat _ _ := some kind
  size _ _ := 0
  fopen _ _ := true
  readdir _ _ := none
  mkdir _ path :=
    if trimSlashes path = trimSlashes (lit "b") then .eexist
    else if place [lit "home"] path <+: place [lit "home"] (lit "b") then .failed else .made
  remove _ _ := 0
  rename _ _ _ := 0
  takesName _ := true
  takesData _ := true
  backupDir_ne := by decide
  backupDir_nul := by decide
  readdir_name _ _ _ h := by cases h

theorem smallHost_hasBackupDir (kind : FileKind) : (smallHost kind).HasBackupDir where
  above n path h := by
    have hmkdir : (smallHost kind).mkdir n path =
        if trimSlashes path = trimSlashes (lit "b") then .eexist else .failed :=
      congrArg (ite _ _) (if_pos h)
    rw [hmkdir]
    split <;> decide
  there n path _ h := if_pos h

/-- One without a backup directory: the first `mkdir` misses the directory above. -/
def bareHost : Host :=
  { smallHost .regular with mkdir := fun n _ => if n = 0 then .failed else .made }

/-- A string of a message. -/
def stringItem (s : String) : Plist := .scalar (.string (lit s)) (lit s).length

/-- The removal of one item. -/
def removal (s : String) : Request := ⟨.removeItems, [stringItem "", .array [stringItem s]]⟩

/-- A directory is made. -/
def creation (s : String) : Request := ⟨.createDirectory, [stringItem "", stringItem s]⟩

/-- Two requests that stay below the backup directory. -/
theorem requests_confined_small :
    Meets (handleRequests (smallHost .regular) 8 [creation "u/d", removal "u/d/../f"]) []
      (fun _ log => (smallHost .regular).Within log) (smallHost .regular).Within := by
  refine requests_confined (smallHost .regular) (smallHost_hasBackupDir _) 8 fun request hmem => ?_
  rcases mem_cons.mp hmem with rfl | hmem
  · exact ⟨by decide, by decide⟩
  · rw [mem_singleton.mp hmem]
    exact ⟨by decide, by decide⟩

/-- Three requests that do not: two removals take a file beside the backup directory and the backup
directory itself, and a directory below one that is not there makes that one too. -/
theorem requests_escape :
    (∃ r, handleRequests (smallHost .regular) 8 [removal "../x"] [] = .ok r ∧
      decide (.remove (lit "b/../x") ∈ r.2 ∧
        ¬ Inside (smallHost .regular).root (place [lit "home"] (lit "b/../x"))) = true) ∧
    (∃ r, handleRequests (smallHost .directory) 8 [removal ""] [] = .ok r ∧
      decide (.remove (lit "b/") ∈ r.2 ∧
        place [lit "home"] (lit "b/") = (smallHost .directory).root) = true) ∧
    ∃ r, handleRequests bareHost 8 [creation "x"] [] = .ok r ∧
      decide (.mkdir (lit "b") true ∈ r.2 ∧
        place [lit "home"] (lit "b") = bareHost.root) = true :=
  ⟨exists_ok (by decide +kernel), exists_ok (by decide +kernel), exists_ok (by decide +kernel)⟩

end IDeviceStack.Libimobiledevice
