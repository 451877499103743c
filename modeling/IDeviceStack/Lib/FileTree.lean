/-
# `Lib.FileTree` — files, directories and paths

A tree of directories with files in it.  A path is a text: its names stand between slashes,
a name that is empty or `.` stays where it is, and `..` goes up.  There are no links.

A `Disk` is such a tree together with the files that have been looked for.

**Proved here.**  A path that ends with a plain name denotes the file of that name in the directory
in front of it (`FileTree.locate_child`), and a directory is reached where all the places on the way
are directories (`FileTree.walk_eq`).  What is looked up in a disk is kept there
(`Disk.visit_of_some`).
-/
import Mathlib.Data.List.Basic

namespace IDeviceStack.Lib

open List

/-- The name of a file or a directory. -/
abbrev Name := List UInt8

/-- A place in the tree: the names from the root down. -/
abbrev Path := List Name

def slash : UInt8 := 47

/-- `.` and `..`, and the empty name that is left between two slashes. -/
def isDots (name : Name) : Bool := name = [] ∨ name = [46] ∨ name = [46, 46]

/-- The files and the directories; none is both. -/
structure FileTree where
  isDir : Path → Bool
  files : Path → Option (List UInt8)
  apart : ∀ p, isDir p = true → files p = none

namespace FileTree

variable (t : FileTree)

/-- The directory that is reached from `dir` by some names. -/
def walk : Path → List Name → Option Path
  | dir, [] => some dir
  | dir, name :: names =>
    if name = [] ∨ name = [46] then walk dir names
    else if name = [46, 46] then walk dir.dropLast names
    else if t.isDir (dir ++ [name]) then walk (dir ++ [name]) names
    else none

/-- The place that a path denotes, if its last name can be the name of a file. -/
def locate (path : List UInt8) : Option Path :=
  let names := path.splitOn slash
  let name := names.getLast?.getD []
  if isDots name then none
  else (t.walk [] names.dropLast).map fun dir => dir ++ [name]

/-- The tree with other contents at `p`, which is no directory. -/
def setFile (p : Path) (content : Option (List UInt8)) (h : t.isDir p = false) : FileTree where
  isDir := t.isDir
  files := fun q => if q = p then content else t.files q
  apart := by
    intro q hq
    by_cases hqp : q = p
    · rw [hqp, h] at hq
      cases hq
    · rw [if_neg hqp]
      exact t.apart q hq

/-! ## Following a path -/

variable {t} {t' : FileTree}

/-- Only the directories count. -/
theorem walk_congr (h : t'.isDir = t.isDir) (dir : Path) (names : List Name) :
    t'.walk dir names = t.walk dir names := by
  induction names generalizing dir with
  | nil => rfl
  | cons name names ih => rw [walk, walk, h, ih, ih, ih]

theorem locate_congr (h : t'.isDir = t.isDir) (path : List UInt8) :
    t'.locate path = t.locate path := by
  rw [locate, locate, walk_congr h]

/-- The text `dirText` denotes the directory `dir`. -/
def Denotes (t : FileTree) (dirText : List UInt8) (dir : Path) : Prop :=
  t.walk [] (dirText.splitOn slash) = some dir

/-- **A plain name** behind the text of a directory: the file of that name in it. -/
theorem locate_child {dirText : List UInt8} {dir : Path} (h : t.Denotes dirText dir) {name : Name}
    (hslash : slash ∉ name) (hdots : isDots name = false) :
    t.locate (dirText ++ slash :: name) = some (dir ++ [name]) := by
  have hsplit : (dirText ++ slash :: name).splitOn slash = dirText.splitOn slash ++ [name] := by
    rw [splitOn_append_cons_self, splitOn_eq_singleton hslash]
  rw [Denotes] at h
  rw [locate, hsplit]
  simp only [List.getLast?_append, List.getLast?_singleton, Option.some_or,
    Option.getD_some, dropLast_concat, h, hdots, Option.map_some]
  rfl

/-- The names between slashes have no slash in them. -/
theorem slash_notMem_splitOn (s : List UInt8) : ∀ name ∈ s.splitOn slash, slash ∉ name := by
  induction s with
  | nil =>
    intro name hname
    rw [splitOn_nil, mem_singleton] at hname
    rw [hname]
    exact not_mem_nil
  | cons c s ih =>
    intro name hname
    rw [splitOn_cons_eq_if_modifyHead] at hname
    by_cases hc : c = slash
    · rw [if_pos (by rw [hc]; rfl)] at hname
      rcases mem_cons.mp hname with rfl | hname
      · exact not_mem_nil
      · exact ih name hname
    · rw [if_neg (by simpa using hc)] at hname
      obtain ⟨first, rest, hsplit⟩ := exists_cons_of_ne_nil (splitOn_ne_nil slash s)
      rw [hsplit] at hname ih
      rcases mem_cons.mp hname with rfl | hname
      · rw [mem_cons]
        exact not_or.mpr ⟨fun h => hc h.symm, ih first mem_cons_self⟩
      · exact ih name (mem_cons_of_mem first hname)

theorem locate_name {path : List UInt8} {p : Path} (h : t.locate path = some p) :
    ∃ dir name, p = dir ++ [name] ∧ slash ∉ name := by
  simp only [locate] at h
  split at h
  · cases h
  · obtain ⟨dir, -, rfl⟩ := Option.map_eq_some_iff.mp h
    refine ⟨dir, _, rfl, ?_⟩
    rw [List.getLast?_eq_some_getLast (splitOn_ne_nil slash path)]
    exact slash_notMem_splitOn path _ (getLast_mem _)

end FileTree

/-! ## Paths alone -/

/-- Where some names lead from `dir`, if they lead anywhere. -/
def resolve : Path → List Name → Path
  | dir, [] => dir
  | dir, name :: names =>
    if name = [] ∨ name = [46] then resolve dir names
    else if name = [46, 46] then resolve dir.dropLast names
    else resolve (dir ++ [name]) names

/-- The place of a path that is looked up in the directory `cwd`. -/
def place (cwd : Path) (path : List UInt8) : Path :=
  resolve (if path.head? = some slash then [] else cwd) (path.splitOn slash)

/-- A place below `root`. -/
def Inside (root p : Path) : Prop := ∃ name names, p = root ++ name :: names

instance (root p : Path) : Decidable (Inside root p) :=
  decidable_of_iff (root <+: p ∧ p ≠ root) <| by
    constructor
    · rintro ⟨⟨names, rfl⟩, hne⟩
      cases names with
      | nil => exact absurd (append_nil root) hne
      | cons name names => exact ⟨name, names, rfl⟩
    · rintro ⟨name, names, rfl⟩
      exact ⟨⟨_, rfl⟩, by simp⟩

theorem resolve_append (dir : Path) (names names' : List Name) :
    resolve dir (names ++ names') = resolve (resolve dir names) names' := by
  induction names generalizing dir with
  | nil => rfl
  | cons name names ih =>
    rw [cons_append, resolve, resolve, ih, ih, ih]
    split
    · rfl
    · split <;> rfl

/-- A plain name leads one step down. -/
theorem resolve_plain (dir : Path) {name : Name} (h : isDots name = false) :
    resolve dir [name] = dir ++ [name] := by
  rw [isDots, decide_eq_false_iff_not, not_or, not_or] at h
  rw [resolve, if_neg (not_or.mpr ⟨h.1, h.2.1⟩), if_neg h.2.2, resolve]

/-- The places that plain names lead to. -/
def placesFrom : Path → List Name → List Path
  | _, [] => []
  | dir, name :: names =>
    if name = [] ∨ name = [46] then placesFrom dir names
    else if name = [46, 46] then placesFrom dir.dropLast names
    else (dir ++ [name]) :: placesFrom (dir ++ [name]) names

theorem placesFrom_append (dir : Path) (names names' : List Name) :
    placesFrom dir (names ++ names') =
      placesFrom dir names ++ placesFrom (resolve dir names) names' := by
  induction names generalizing dir with
  | nil => rfl
  | cons name names ih =>
    rw [cons_append, placesFrom, placesFrom, resolve, ih, ih, ih]
    split
    · rfl
    · split <;> rfl

/-- Every place on the way has to be a directory. -/
theorem FileTree.walk_eq (t : FileTree) (dir : Path) (names : List Name) :
    t.walk dir names =
      if ∀ p ∈ placesFrom dir names, t.isDir p then some (resolve dir names) else none := by
  induction names generalizing dir with
  | nil => simp [FileTree.walk, placesFrom, resolve]
  | cons name names ih =>
    rw [FileTree.walk, placesFrom, resolve, ih, ih, ih]
    split
    · rfl
    split
    · rfl
    by_cases h : t.isDir (dir ++ [name]) <;> simp [h]

theorem placesFrom_dots (dir : Path) {name : Name} (h : isDots name) : placesFrom dir [name] = [] := by
  rcases of_decide_eq_true h with rfl | rfl | rfl <;> simp [placesFrom]

theorem placesFrom_plain (dir : Path) {name : Name} (h : isDots name = false) :
    placesFrom dir [name] = [dir ++ [name]] := by
  rw [isDots, decide_eq_false_iff_not, not_or, not_or] at h
  rw [placesFrom, if_neg (not_or.mpr ⟨h.1, h.2.1⟩), if_neg h.2.2, placesFrom]

/-- What is behind the text of a directory starts there. -/
theorem place_append (cwd : Path) {dirText : List UInt8} (hne : dirText ≠ []) (s : List UInt8) :
    place cwd (dirText ++ slash :: s) = resolve (place cwd dirText) (s.splitOn slash) := by
  have hhead : (dirText ++ slash :: s).head? = dirText.head? := by
    obtain ⟨c, rest, rfl⟩ := exists_cons_of_ne_nil hne
    rfl
  rw [place, place, hhead, splitOn_append_cons_self, resolve_append]

/-- A file of a directory. -/
theorem place_child (cwd : Path) {dirText : List UInt8} (hne : dirText ≠ []) {name : Name}
    (hslash : slash ∉ name) (hdots : isDots name = false) :
    place cwd (dirText ++ slash :: name) = place cwd dirText ++ [name] := by
  rw [place_append cwd hne, splitOn_eq_singleton hslash, resolve_plain _ hdots]

theorem Inside.child {root p : Path} (h : Inside root p) (name : Name) : Inside root (p ++ [name]) := by
  obtain ⟨first, names, rfl⟩ := h
  exact ⟨first, names ++ [name], by simp⟩

/-! ## Disks -/

/-- A tree, and the places that have been looked for, the last one at the end. -/
structure Disk where
  tree : FileTree
  touched : List Path

namespace Disk

variable (d : Disk)

/-- A path is looked up. -/
def visit (path : List UInt8) : Disk :=
  { d with touched := d.touched ++ (d.tree.locate path).toList }

theorem visit_of_none {d : Disk} {path : List UInt8} (h : d.tree.locate path = none) :
    d.visit path = d := by
  rw [visit, h, Option.toList_none, append_nil]

theorem visit_of_some {d : Disk} {path : List UInt8} {p : Path} (h : d.tree.locate path = some p) :
    (d.visit path).touched = d.touched ++ [p] := by
  rw [visit, h]
  rfl

/-- The contents of a file. -/
def read (path : List UInt8) : Option (List UInt8) × Disk :=
  ((d.tree.locate path).bind d.tree.files, d.visit path)

/-- A file is taken away; whether there was one.  Directories are not empty, and stay. -/
def remove (path : List UInt8) : Bool × Disk :=
  match d.tree.locate path with
  | none => (false, d.visit path)
  | some p =>
    if h : d.tree.isDir p = false then
      ((d.tree.files p).isSome, { d.visit path with tree := d.tree.setFile p none h })
    else (false, d.visit path)

/-- A file gets new contents; if it cannot be opened, nothing happens. -/
def write (path content : List UInt8) : Disk :=
  match d.tree.locate path with
  | none => d.visit path
  | some p =>
    if h : d.tree.isDir p = false then
      { d.visit path with tree := d.tree.setFile p (some content) h }
    else d.visit path

end Disk

end IDeviceStack.Lib
