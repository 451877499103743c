/-
# `Libimobiledevice.MakeParents` — a directory and those above it

`mkdir_with_parents` stands in `idevicebackup2.c` and in `conf.c` of usbmuxd.  Both go up while
`mkdir` fails; the first one tries again behind a parent that it was told is there, the other
one does not, and both answer with what they know of the parent.

* A text is taken apart at its slashes; `dirname` and `mkdir` look at nothing else.
* What forbids a directory (permissions, a file system that is read-only) depends on its place.

**Proved here.**  `makesParents_iff`, `makesParents_refuted`.
-/
import IDeviceStack.Libimobiledevice.BackupPaths

namespace IDeviceStack.Libimobiledevice

open Lib List

/-! ## The calls -/

/-- A path: whether it starts with a slash, and its names.  `""` has none. -/
structure DirText where
  absolute : Bool
  names : List Name
  deriving DecidableEq, Repr

namespace DirText

def dirname (d : DirText) : DirText :=
  if d.absolute ∨ d.names.dropLast ≠ [] then ⟨d.absolute, d.names.dropLast⟩ else ⟨false, [[46]]⟩

/-- The empty text. -/
def IsEmpty (d : DirText) : Prop := d.absolute = false ∧ d.names = []

end DirText

/-- A tree with one more directory. -/
def addDir (t : FileTree) (p : Path) (h : t.files p = none) : FileTree where
  isDir q := q = p || t.isDir q
  files := t.files
  apart q hq := by
    rcases (Bool.or_eq_true _ _).mp hq with hq | hq
    · rwa [of_decide_eq_true hq]
    · exact t.apart q hq

/-- The directory that the program runs in, and the places where it cannot make one. -/
structure MkdirSite where
  cwd : Path
  forbids : Path → Bool

namespace MkdirSite

variable (site : MkdirSite)

/-- Where the names of a path start. -/
def start (d : DirText) : Path := if d.absolute then [] else site.cwd

/-- `__mkdir`. -/
def mkdir (d : DirText) (t : FileTree) : MkdirResult × FileTree :=
  match d.names.getLast? with
  | none => (if d.absolute then .eexist else .failed, t)
  | some name =>
    match t.walk (site.start d) d.names.dropLast with
    | none => (.failed, t)
    | some dir =>
      if isDots name ∨ t.isDir (dir ++ [name]) then (.eexist, t)
      else
        match h : t.files (dir ++ [name]) with
        | some _ => (.eexist, t)
        | none => if site.forbids (dir ++ [name]) then (.failed, t) else (.made, addDir t _ h)

/-- The two copies, of which one tries `again`; `none` is no end within so many calls. -/
def makeParents (again : Bool) : Nat → Option DirText → FileTree → Option (Int × FileTree)
  | _, none, t => some (-1, t)
  | 0, some _, _ => none
  | fuel + 1, some dir, t =>
    match site.mkdir dir t with
    | (.failed, t) => do
        let (res, t) ← makeParents again fuel (some dir.dirname) t
        if res = 0 ∧ again then do
          let (_, t) ← makeParents again fuel (some dir) t
          pure (res, t)
        else pure (res, t)
    | (_, t) => some (0, t)

/-- `mkdir_with_parents` of `idevicebackup2.c`. -/
def backupMkdirWithParents : Nat → Option DirText → FileTree → Option (Int × FileTree) :=
  site.makeParents true

/-- `mkdir_with_parents` of `conf.c`. -/
def confMkdirWithParents : Nat → Option DirText → FileTree → Option (Int × FileTree) :=
  site.makeParents false

/-- The path leads to a directory. -/
def IsThere (d : DirText) (t : FileTree) : Prop :=
  ¬ d.IsEmpty ∧ (t.walk (site.start d) d.names).isSome

/-- The call comes to an end, and returns 0 exactly where the directory is there then. -/
def MakesParents (call : Nat → Option DirText → FileTree → Option (Int × FileTree))
    (dir : Option DirText) (t : FileTree) : Prop :=
  ∃ fuel res t', call fuel dir t = some (res, t') ∧ (res = 0 ↔ ∃ d, dir = some d ∧ site.IsThere d t')

end MkdirSite

/-! ## The places on the way -/

namespace MkdirSite

variable {site : MkdirSite} {d : DirText} {t t' t'' : FileTree} {fuel : Nat} {again : Bool} {res : Int}

/-- The places on the way to a directory. -/
def places (site : MkdirSite) (d : DirText) : List Path := placesFrom (site.start d) d.names

/-- A place that is a directory or can become one. -/
def Free (site : MkdirSite) (t : FileTree) (p : Path) : Prop :=
  t.isDir p ∨ t.files p = none ∧ site.forbids p = false

theorem isThere_iff : site.IsThere d t ↔ ¬ d.IsEmpty ∧ ∀ p ∈ site.places d, t.isDir p := by
  rw [IsThere, FileTree.walk_eq, places]
  split
  · next h => exact ⟨fun hd => ⟨hd.1, h⟩, fun hd => ⟨hd.1, rfl⟩⟩
  · next h => exact ⟨fun hd => absurd hd.2 (by simp), fun hd => absurd hd.2 h⟩

/-- What a call does to the tree: directories come, where they can. -/
structure Grows (site : MkdirSite) (t t' : FileTree) : Prop where
  files : t'.files = t.files
  keeps : ∀ p, t.isDir p → t'.isDir p
  free : ∀ p, t'.isDir p → site.Free t p

theorem Grows.refl (t : FileTree) : site.Grows t t := ⟨rfl, fun _ => id, fun _ => .inl⟩

theorem Grows.trans (h : site.Grows t t') (h' : site.Grows t' t'') : site.Grows t t'' where
  files := h'.files.trans h.files
  keeps p hp := h'.keeps p (h.keeps p hp)
  free p hp := by
    rcases h'.free p hp with hp | ⟨hfile, hforbids⟩
    · exact h.free p hp
    · exact .inr ⟨h.files ▸ hfile, hforbids⟩

theorem Grows.free_after (h : site.Grows t t') {p : Path} (hp : site.Free t p) : site.Free t' p :=
  hp.imp (h.keeps p) fun ⟨hfile, hforbids⟩ => ⟨h.files ▸ hfile, hforbids⟩

/-! ## One call of `mkdir` -/

/-- What `mkdir` does with a tree, and when it makes the directory or finds it. -/
structure MkdirSpec (site : MkdirSite) (d : DirText) (t : FileTree) (r : MkdirResult × FileTree) :
    Prop where
  grows : site.Grows t r.2
  failed : r.1 = .failed → r.2 = t
  single : ∃ p₀, ∀ p, r.2.isDir p → t.isDir p ∨ p = p₀
  reaches : ¬ d.IsEmpty → (∀ p ∈ site.places d, site.Free t p) →
    (∀ p ∈ placesFrom (site.start d) d.names.dropLast, t.isDir p) → r.1 ≠ .failed
  there : ¬ d.IsEmpty → (∀ p ∈ site.places d, site.Free t p) → r.1 ≠ .failed → site.IsThere d r.2

theorem mkdirSpec_failed (h : (∀ p ∈ site.places d, site.Free t p) → ¬ d.IsEmpty →
    ¬ ∀ p ∈ placesFrom (site.start d) d.names.dropLast, t.isDir p) :
    site.MkdirSpec d t (.failed, t) where
  grows := .refl t
  failed _ := rfl
  single := ⟨[], fun _ => .inl⟩
  reaches hne hfree hparent _ := h hfree hne hparent
  there _ _ hr := absurd rfl hr

theorem mkdirSpec_eexist (h : (∀ p ∈ site.places d, site.Free t p) →
    ∀ p ∈ site.places d, t.isDir p) : site.MkdirSpec d t (.eexist, t) where
  grows := .refl t
  failed _ := rfl
  single := ⟨[], fun _ => .inl⟩
  reaches _ _ _ := nofun
  there hne hfree _ := isThere_iff.mpr ⟨hne, h hfree⟩

theorem mkdir_spec (site : MkdirSite) (d : DirText) (t : FileTree) :
    site.MkdirSpec d t (site.mkdir d t) := by
  rcases eq_nil_or_concat d.names with hnames | ⟨init, name, hnames⟩
  · have hplaces : site.places d = [] := by
      rw [places, hnames]
      rfl
    rw [mkdir, hnames]
    cases habs : d.absolute with
    | true => exact mkdirSpec_eexist fun _ p hp => absurd (hplaces ▸ hp) not_mem_nil
    | false => exact mkdirSpec_failed fun _ hne _ => hne ⟨habs, hnames⟩
  rw [concat_eq_append] at hnames
  have hplaces : site.places d = placesFrom (site.start d) init ++
      placesFrom (resolve (site.start d) init) [name] := by
    rw [places, hnames, placesFrom_append]
  rw [mkdir, hnames, List.getLast?_concat, dropLast_concat, FileTree.walk_eq]
  by_cases hinit : ∀ p ∈ placesFrom (site.start d) init, t.isDir p
  swap
  · rw [if_neg hinit]
    refine mkdirSpec_failed fun _ _ hparent => hinit ?_
    rwa [hnames, dropLast_concat] at hparent
  rw [if_pos hinit]
  dsimp only
  by_cases hfound : isDots name ∨ t.isDir (resolve (site.start d) init ++ [name])
  · rw [if_pos hfound]
    refine mkdirSpec_eexist fun _ p hp => ?_
    rw [hplaces] at hp
    rcases mem_append.mp hp with hp | hp
    · exact hinit p hp
    cases hdots : isDots name with
    | true =>
      rw [placesFrom_dots _ hdots] at hp
      exact absurd hp not_mem_nil
    | false =>
      rw [placesFrom_plain _ hdots] at hp
      rw [mem_singleton.mp hp]
      exact hfound.resolve_left (by simp [hdots])
  rw [if_neg hfound]
  obtain ⟨hdots, hdir⟩ := not_or.mp hfound
  rw [placesFrom_plain _ (Bool.eq_false_of_not_eq_true hdots)] at hplaces
  have hlast : resolve (site.start d) init ++ [name] ∈ site.places d := by simp [hplaces]
  split
  · next content hfile =>
    refine mkdirSpec_eexist fun hfree => ?_
    rcases hfree _ hlast with h | ⟨h, -⟩
    · exact absurd h hdir
    · rw [hfile] at h
      cases h
  · next hfile =>
    split
    · next hforbids =>
      refine mkdirSpec_failed fun hfree _ _ => ?_
      rcases hfree _ hlast with h | ⟨-, h⟩
      · exact absurd h hdir
      · rw [h] at hforbids
        cases hforbids
    · next hforbids =>
      have hnew : ∀ p, (addDir t _ hfile).isDir p ↔
          p = resolve (site.start d) init ++ [name] ∨ t.isDir p := by simp [addDir]
      refine ⟨⟨rfl, fun p hp => (hnew p).mpr (.inr hp), fun p hp => ?_⟩, nofun,
        ⟨_, fun p hp => ((hnew p).mp hp).symm⟩, fun _ _ _ => nofun, fun hne _ _ => ?_⟩
      · rcases (hnew p).mp hp with rfl | hp
        · exact .inr ⟨hfile, Bool.eq_false_of_not_eq_true hforbids⟩
        · exact .inl hp
      · refine isThere_iff.mpr ⟨hne, fun p hp => (hnew p).mpr ?_⟩
        rw [hplaces] at hp
        rcases mem_append.mp hp with hp | hp
        · exact .inr (hinit p hp)
        · exact .inl (mem_singleton.mp hp)

/-! ## The recursion -/

theorem dirname_not_empty (d : DirText) : ¬ d.dirname.IsEmpty := by
  rintro ⟨habs, hnames⟩
  rw [DirText.dirname] at habs hnames
  split at habs
  · next h =>
    rw [if_pos h] at hnames
    exact h.elim (fun h => by simp [h] at habs) (absurd hnames)
  · next h =>
    rw [if_neg h] at hnames
    cases hnames

theorem makeParents_succ (h : site.makeParents again (fuel + 1) (some d) t = some (res, t')) :
    (site.mkdir d t).1 ≠ .failed ∧ res = 0 ∧ t' = (site.mkdir d t).2 ∨
      (site.mkdir d t).1 = .failed ∧
        ∃ t1, site.makeParents again fuel (some d.dirname) t = some (res, t1) ∧
          if res = 0 ∧ again then ∃ res', site.makeParents again fuel (some d) t1 = some (res', t')
          else t' = t1 := by
  have hspec := mkdir_spec site d t
  rw [makeParents] at h
  split at h
  · next t0 hmkdir =>
    rw [hmkdir] at hspec
    obtain rfl := hspec.failed rfl
    obtain ⟨⟨res1, t1⟩, hparent, h⟩ := Option.bind_eq_some_iff.mp h
    dsimp only at h
    refine .inr ⟨by rw [hmkdir], t1, ?_⟩
    split at h
    · next hagain =>
      obtain ⟨⟨res2, t2⟩, hsecond, h⟩ := Option.bind_eq_some_iff.mp h
      cases h
      exact ⟨hparent, by rw [if_pos hagain]; exact ⟨_, hsecond⟩⟩
    · next hagain =>
      cases h
      exact ⟨hparent, by rw [if_neg hagain]⟩
  · next hfailed hmkdir =>
    cases h
    rw [hmkdir]
    exact .inl ⟨hfailed, rfl, rfl⟩

theorem makeParents_grows (h : site.makeParents again fuel (some d) t = some (res, t')) :
    res = 0 ∧ site.Grows t t' := by
  induction fuel generalizing d t t' res with
  | zero => cases h
  | succ fuel ih =>
    rcases makeParents_succ h with ⟨-, hres, rfl⟩ | ⟨-, t1, hparent, hrest⟩
    · exact ⟨hres, (mkdir_spec site d t).grows⟩
    · obtain ⟨rfl, hgrows⟩ := ih hparent
      split at hrest
      · obtain ⟨res', hsecond⟩ := hrest
        exact ⟨rfl, hgrows.trans (ih hsecond).2⟩
      · exact ⟨rfl, hrest ▸ hgrows⟩

theorem makeParents_single (h : site.makeParents false fuel (some d) t = some (res, t')) :
    ∃ p0, ∀ p, t'.isDir p → t.isDir p ∨ p = p0 := by
  induction fuel generalizing d t t' res with
  | zero => cases h
  | succ fuel ih =>
    rcases makeParents_succ h with ⟨-, -, rfl⟩ | ⟨-, t1, hparent, hrest⟩
    · exact (mkdir_spec site d t).single
    · rw [if_neg (by simp)] at hrest
      exact hrest ▸ ih hparent

theorem parent_of_failed (hne : ¬ d.IsEmpty) (hfree : ∀ p ∈ site.places d, site.Free t p)
    (hfailed : (site.mkdir d t).1 = .failed) :
    d.dirname.names.length < d.names.length ∧ site.start d.dirname = site.start d ∧
      d.dirname.names = d.names.dropLast ∧ ∃ p ∈ site.places d.dirname, ¬ t.isDir p := by
  by_cases hparent : ∀ p ∈ placesFrom (site.start d) d.names.dropLast, t.isDir p
  · exact absurd hfailed ((mkdir_spec site d t).reaches hne hfree hparent)
  · push Not at hparent
    obtain ⟨p, hp, hdir⟩ := hparent
    have hinit : d.names.dropLast ≠ [] := by
      intro h
      rw [h] at hp
      exact absurd hp not_mem_nil
    have hdirname : d.dirname = ⟨d.absolute, d.names.dropLast⟩ := by
      rw [DirText.dirname, if_pos (.inr hinit)]
    have hnames : d.names ≠ [] := fun h => hinit (by rw [h]; rfl)
    refine ⟨?_, by rw [hdirname]; rfl, by rw [hdirname], p, ?_, by simpa using hdir⟩
    · rw [hdirname, length_dropLast]
      exact Nat.sub_lt (length_pos_iff.mpr hnames) one_pos
    · rw [hdirname]
      exact hp

theorem mem_places_of_init {p : Path} (hstart : site.start d.dirname = site.start d)
    (hnames : d.dirname.names = d.names.dropLast) (hp : p ∈ site.places d.dirname) :
    p ∈ site.places d := by
  rcases eq_nil_or_concat d.names with hnil | ⟨init, name, hconcat⟩
  · rw [places, hnames, hnil] at hp
    exact absurd hp not_mem_nil
  · rw [places, hnames, hstart, hconcat, concat_eq_append, dropLast_concat] at hp
    rw [places, hconcat, concat_eq_append, placesFrom_append]
    exact mem_append_left _ hp

theorem makeParents_of_mkdir (fuel : Nat) (h : (site.mkdir d t).1 ≠ .failed) :
    site.makeParents again (fuel + 1) (some d) t = some (0, (site.mkdir d t).2) := by
  rw [makeParents]
  split
  · next hmkdir => exact absurd (by rw [hmkdir]) h
  · next hmkdir => rw [hmkdir]

theorem makeParents_of_failed {t1 : FileTree} (h : (site.mkdir d t).1 = .failed)
    (hparent : site.makeParents again fuel (some d.dirname) t = some (0, t1)) :
    site.makeParents again (fuel + 1) (some d) t =
      if again then (site.makeParents again fuel (some d) t1).map fun r => (0, r.2)
      else some (0, t1) := by
  have htree := (mkdir_spec site d t).failed h
  rw [makeParents, show site.mkdir d t = (.failed, t) from Prod.ext h htree]
  dsimp only
  rw [hparent, Option.bind_eq_bind, Option.bind_some]
  cases again with
  | false => simp
  | true =>
    simp only [and_self, if_true]
    cases site.makeParents true fuel (some d) t1 <;> rfl

/-- Where every place is free, the directory is there in the end: with another try always, without
one if at most one is missing. -/
theorem makeParents_makes (again : Bool) (hne : ¬ d.IsEmpty) (hfree : ∀ p ∈ site.places d, site.Free t p)
    (hone : again = false → ∃ p0, ∀ p ∈ site.places d, t.isDir p ∨ p = p0) :
    ∃ fuel t', site.makeParents again (fuel + 1) (some d) t = some (0, t') ∧ site.IsThere d t' := by
  induction hn : d.names.length using Nat.strong_induction_on generalizing d with
  | _ n ih =>
    subst hn
    by_cases hfailed : (site.mkdir d t).1 = .failed
    swap
    · exact ⟨0, _, makeParents_of_mkdir 0 hfailed, (mkdir_spec site d t).there hne hfree hfailed⟩
    obtain ⟨hlength, hstart, hnames, p, hp, hmissing⟩ := parent_of_failed hne hfree hfailed
    have hinit := fun p hp => mem_places_of_init hstart hnames (p := p) hp
    obtain ⟨fuel, t1, hparent, hthere⟩ := ih _ hlength (dirname_not_empty d)
      (fun p hp => hfree p (hinit p hp)) (fun h => (hone h).imp fun _ hone p hp => hone p (hinit p hp)) rfl
    have hgrows := (makeParents_grows hparent).2
    obtain ⟨-, hdirs⟩ := isThere_iff.mp hthere
    have hcall := makeParents_of_failed hfailed hparent
    cases again with
    | true =>
      have hfree1 : ∀ p ∈ site.places d, site.Free t1 p := fun p hp => hgrows.free_after (hfree p hp)
      have hmkdir := (mkdir_spec site d t1).reaches hne hfree1 fun p hp => hdirs p (by
        rwa [places, hstart, hnames])
      refine ⟨fuel + 1, _, ?_, (mkdir_spec site d t1).there hne hfree1 hmkdir⟩
      rw [hcall, if_pos rfl, makeParents_of_mkdir fuel hmkdir]
      rfl
    | false =>
      obtain ⟨p0, hone⟩ := hone rfl
      refine ⟨fuel + 1, t1, hcall, isThere_iff.mpr ⟨hne, fun q hq => ?_⟩⟩
      rcases hone q hq with hq | rfl
      · exact hgrows.keeps q hq
      · -- the place that is missing is one of those above
        rcases hone p (hinit p hp) with h | rfl
        · exact absurd h hmissing
        · exact hdirs p hp

theorem free_of_makes (h : site.makeParents again fuel (some d) t = some (res, t'))
    (hthere : res = 0 ↔ ∃ d', some d = some d' ∧ site.IsThere d' t') :
    site.IsThere d t' ∧ ¬ d.IsEmpty ∧ ∀ p ∈ site.places d, site.Free t p := by
  obtain ⟨rfl, hgrows⟩ := makeParents_grows h
  obtain ⟨d', hd, hthere⟩ := hthere.mp rfl
  obtain rfl := Option.some.inj hd
  obtain ⟨hne, hdirs⟩ := isThere_iff.mp hthere
  exact ⟨hthere, hne, fun p hp => hgrows.free p (hdirs p hp)⟩

/-- **Directories with parents.**  For every tree, path and pattern of forbidden places, the copy of
idevicebackup2 is right where every place on the way is a directory or can become one, and the one
of usbmuxd where at most one of them is missing, too. -/
theorem makesParents_iff (site : MkdirSite) (t : FileTree) (d : DirText) :
    (site.MakesParents site.backupMkdirWithParents (some d) t ↔
      ¬ d.IsEmpty ∧ ∀ p ∈ site.places d, site.Free t p) ∧
    (site.MakesParents site.confMkdirWithParents (some d) t ↔
      ¬ d.IsEmpty ∧ (∀ p ∈ site.places d, site.Free t p) ∧
        ∃ p₀, ∀ p ∈ site.places d, t.isDir p ∨ p = p₀) ∧
    site.MakesParents site.backupMkdirWithParents none t ∧
    site.MakesParents site.confMkdirWithParents none t := by
  have hnull : ∀ call : Nat → Option DirText → FileTree → Option (Int × FileTree),
      call 0 none t = some (-1, t) → site.MakesParents call none t := fun call h =>
    ⟨0, -1, t, h, nofun, fun ⟨_, hd, _⟩ => nomatch hd⟩
  refine ⟨⟨?_, ?_⟩, ⟨?_, ?_⟩, hnull _ rfl, hnull _ rfl⟩
  · rintro ⟨fuel, res, t', hcall, hres⟩
    exact (free_of_makes hcall hres).2
  · rintro ⟨hne, hfree⟩
    obtain ⟨fuel, t', hcall, hthere⟩ := makeParents_makes true hne hfree nofun
    exact ⟨_, _, _, hcall, fun _ => ⟨d, rfl, hthere⟩, fun _ => rfl⟩
  · rintro ⟨fuel, res, t', hcall, hres⟩
    obtain ⟨hthere, hne, hfree⟩ := free_of_makes hcall hres
    obtain ⟨p₀, hsingle⟩ := makeParents_single hcall
    exact ⟨hne, hfree, p₀, fun p hp => hsingle p ((isThere_iff.mp hthere).2 p hp)⟩
  · rintro ⟨hne, hfree, hone⟩
    obtain ⟨fuel, t', hcall, hthere⟩ := makeParents_makes false hne hfree fun _ => hone
    exact ⟨_, _, _, hcall, fun _ => ⟨d, rfl, hthere⟩, fun _ => rfl⟩

/-- On a file system that is read-only, `/a` is asked for again and again by the one copy, and is
reported as made by the other. -/
theorem makesParents_refuted : ¬ ∀ (site : MkdirSite) (t : FileTree) (d : Option DirText),
    site.MakesParents site.backupMkdirWithParents d t ∧
      site.MakesParents site.confMkdirWithParents d t := by
  intro h
  obtain ⟨⟨fuel, res, t', hcall, hres⟩, -⟩ := h ⟨[], fun _ => true⟩ ⟨fun _ => false, fun _ => none, nofun⟩
    (some ⟨true, [[97]]⟩)
  obtain ⟨-, -, hfree⟩ := free_of_makes hcall hres
  rcases hfree [[97]] (by decide) with h | ⟨-, h⟩
  · cases h
  · cases h

end MkdirSite

end IDeviceStack.Libimobiledevice
