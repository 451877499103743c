/-
# `Libimobiledevice.MoveItems` — what a series of renames may lose

`DLMessageMoveItems` of `idevicebackup2.c`: what stands at the new path is removed, with all that is
below it, and only then is `rename` tried.

* The entries of the dictionary whose values are strings are pairs of places; `stringBuildPath` and
  `place` say which.  There are no links.
* What forbids a removal or a rename depends on the places.  A place that is `locked` cannot be
  removed or replaced; what else `rename` may say against a move is `refuses`.

**Proved here.**  `moveItems_iff`, `moveItems_refuted`.
-/
import Mathlib.Logic.Function.Basic
import Mathlib.Data.List.Infix
import IDeviceStack.Lib.FileTree

namespace IDeviceStack.Libimobiledevice

open Lib Function List Option

/-! ## The tree -/

/-- A file, or a directory with the names in the order of `readdir`. -/
inductive Node where
  | file (content : List UInt8)
  | dir (names : List Name) (child : Name → Node)

namespace Node

/-- What stands at a place. -/
def get : Node → Path → Option Node
  | t, [] => some t
  | file _, _ :: _ => none
  | dir names child, n :: p => if n ∈ names then get (child n) p else none

/-- The tree with something else at a place, whose directory is there. -/
def put : Node → Path → Option Node → Node
  | _, [], some x => x
  | t, [], none => t
  | file content, _ :: _, _ => file content
  | dir names child, [n], none => dir (names.filter (· ≠ n)) child
  | dir names child, [n], some x =>
    dir (if n ∈ names then names else names ++ [n]) (update child n x)
  | dir names child, n :: m :: p, x =>
    dir names (update child n (put (child n) (m :: p) x))

/-- What `rename` puts in the place of something else. -/
def replaces : Node → Node → Bool
  | file _, file _ => true
  | dir _ _, dir [] _ => true
  | _, _ => false

end Node

/-- The places that are locked, and what `rename` has against a move. -/
structure MoveSite where
  locked : Path → Bool
  refuses : Path → Path → Option Nat
  refuses_ne : ∀ {old new : Path}, refuses old new ≠ some 0
  root : locked [] = true

namespace MoveSite

variable (site : MoveSite)

/-- The loop of `rmdir_recursive`: the entries go, up to the first of which something is left;
whether there is one. -/
def removeEntries (removed : Name → Option Node) : List Name → List Name → (Name → Node) →
    List Name × (Name → Node) × Bool
  | [], names, child => (names, child, false)
  | n :: rest, names, child =>
    match removed n with
    | none => removeEntries removed rest (names.filter (· ≠ n)) child
    | some left => (names, update child n left, true)

/-- `rmdir_recursive` for a directory and `remove_file` for a file: what is left of it. -/
def remove : Path → Node → Option Node
  | p, .file content => if site.locked p then some (.file content) else none
  | p, .dir names child =>
    let (names, child, stopped) := removeEntries (fun n => remove (p ++ [n]) (child n)) names names
      child
    if stopped || site.locked p then some (.dir names child) else none

/-- The tree when `rename` is called. -/
def clear (t : Node) (new : Path) : Node :=
  match t.get new with
  | none => t
  | some d => t.put new (site.remove new d)

/-- The `errno` of `rename`, or 0. -/
def renameErrno (t : Node) (old new : Path) : Nat :=
  match t.get old with
  | none => 2
  | some x =>
    if old = new then 0
    else if old <+: new then 22
    else if new <+: old then 39
    else
      match site.refuses old new with
      | some e => e
      | none =>
        match t.get new.dropLast, t.get new with
        | some (.dir _ _), none => 0
        | some (.dir _ _), some y => if site.locked new || !x.replaces y then 39 else 0
        | _, _ => 20

/-- `rename`, where there is nothing against it. -/
def renamed (t : Node) (old new : Path) : Node :=
  if old = new then t else (t.put old none).put new (t.get old)

/-- A turn of the loop: the tree, and the `errno` of `rename`. -/
def moveItem (t : Node) (old new : Path) : Node × Nat :=
  let t := site.clear t new
  let errno := site.renameErrno t old new
  (if errno = 0 then renamed t old new else t, errno)

def errnoToDeviceError (errno : Nat) : Int :=
  if errno = 2 then -6 else if errno = 17 then -7 else -errno

/-- The loop of `DLMessageMoveItems`, and the status that is sent.  Without a dictionary there is no
iterator. -/
def moveItems : Option (List (Path × Path)) → Node → Node × Int
  | none, t => (t, -1)
  | some [], t => (t, 0)
  | some ((old, new) :: moves), t =>
    let (t, errno) := site.moveItem t old new
    if errno ≠ 0 then (t, errnoToDeviceError errno) else moveItems (some moves) t

/-- The moves that are reached, each with the tree in front of it. -/
def reached : List (Path × Path) → Node → List (Node × Path × Path)
  | [], _ => []
  | (old, new) :: moves, t =>
    (t, old, new) ::
      if (site.moveItem t old new).2 ≠ 0 then [] else reached moves (site.moveItem t old new).1

/-! ## What is to hold -/

/-- A move that is performed leaves at the new place what the old one held; one that fails leaves
everything. -/
def KeepsItems (t : Node) (old new : Path) : Prop :=
  if (site.moveItem t old new).2 = 0 then (site.moveItem t old new).1.get new = t.get old
  else (site.moveItem t old new).1 = t

/-- The moves of a message lose nothing, and the status is 0 where all of them are performed. -/
structure LosesNothing (moves : List (Path × Path)) (t : Node) : Prop where
  keeps : ∀ a ∈ site.reached moves t, site.KeepsItems a.1 a.2.1 a.2.2
  status : (site.moveItems (some moves) t).2 = 0 ↔
    ∀ a ∈ site.reached moves t, (site.moveItem a.1 a.2.1 a.2.2).2 = 0

/-- Nothing at a place or below it is locked. -/
def Removable : Path → Node → Prop
  | p, .file _ => site.locked p = false
  | p, .dir names child => (∀ n ∈ names, Removable (p ++ [n]) (child n)) ∧ site.locked p = false

/-- The first thing that `rmdir_recursive` comes to is locked. -/
def FirstLocked : Path → Node → Prop
  | p, .dir (n :: _) child => FirstLocked (p ++ [n]) (child n)
  | p, _ => site.locked p

/-- There is nothing against a move to a place that something is removed from. -/
structure Performable (t d : Node) (old new : Path) : Prop where
  source : (t.get old).isSome
  above : ¬ old <+: new
  below : ¬ new <+: old
  refuses : site.refuses old new = none
  removable : site.Removable new d

/-- A move that loses nothing. -/
def Harmless (t : Node) (old new : Path) : Prop :=
  ∀ d, t.get new = some d → site.Performable t d old new ∨ site.FirstLocked new d

end MoveSite

/-! ## Trees -/

namespace Node

variable {t d : Node} {p q : Path} {names : List Name} {child : Name → Node}

theorem get_nil (t : Node) : t.get [] = some t := by cases t <;> rfl

theorem put_nil (t x : Node) : t.put [] (some x) = x := by cases t <;> rfl

theorem get_cons (n : Name) (p : Path) :
    (dir names child).get (n :: p) = if n ∈ names then (child n).get p else none := rfl

theorem get_put (h : t.get p = some (dir names child)) (n : Name) (x : Option Node) :
    (t.put (p ++ [n]) x).get (p ++ [n]) = x := by
  induction p generalizing t with
  | nil =>
    rw [get_nil] at h
    obtain rfl := some.inj h
    cases x with
    | none => simp [put, get]
    | some x =>
      simp only [nil_append, put, get_cons, update_self, get_nil]
      rw [if_pos]
      split <;> simp_all
  | cons m p ih =>
    cases t with
    | file content => cases h
    | dir names' child' =>
      rw [get_cons] at h
      split at h
      · next hm =>
        have hput : (dir names' child').put (m :: p ++ [n]) x =
            dir names' (update child' m ((child' m).put (p ++ [n]) x)) := by
          cases p <;> rfl
        rw [hput, cons_append, get_cons, if_pos hm, update_self, ih h]
      · cases h

theorem get_put_of_not (t : Node) (x : Option Node) (hpq : ¬ p <+: q) (hqp : ¬ q <+: p) :
    (t.put p x).get q = t.get q := by
  induction p generalizing t q with
  | nil => exact absurd nil_prefix hpq
  | cons n p ih =>
    cases q with
    | nil => exact absurd nil_prefix hqp
    | cons m q =>
      cases t with
      | file content => rfl
      | dir names child =>
        by_cases hnm : m = n
        · subst hnm
          rw [cons_prefix_cons, not_and] at hpq hqp
          have hp : p ≠ [] := by
            rintro rfl
            exact hpq rfl nil_prefix
          obtain ⟨k, p, rfl⟩ := exists_cons_of_ne_nil hp
          rw [put, get_cons, get_cons, update_self, ih _ (hpq rfl) (hqp rfl)]
        · rcases p with _ | ⟨k, p⟩
          · cases x with
            | none => simp [put, get_cons, hnm]
            | some x =>
              rw [put, get_cons, get_cons, update_of_ne hnm]
              congr 1
              split <;> simp [hnm]
          · rw [put, get_cons, get_cons, update_of_ne hnm]

theorem get_put_below (h : t.get p = some (dir names child)) (n : Name) (q : Path) (x : Option Node) :
    ∃ names' child', (t.put (p ++ n :: q) x).get p = some (dir names' child') := by
  induction p generalizing t with
  | nil =>
    rw [get_nil] at h
    obtain rfl := some.inj h
    rcases q with _ | ⟨k, q⟩
    · cases x <;> exact ⟨_, _, rfl⟩
    · exact ⟨_, _, rfl⟩
  | cons m p ih =>
    cases t with
    | file content => cases h
    | dir names' child' =>
      rw [get_cons] at h
      split at h
      · next hm =>
        have hput : (dir names' child').put (m :: p ++ n :: q) x =
            dir names' (update child' m ((child' m).put (p ++ n :: q) x)) := by
          cases p <;> rfl
        obtain ⟨names'', child'', hget⟩ := ih h
        rw [hput, get_cons, if_pos hm, update_self]
        exact ⟨_, _, hget⟩
      · cases h

theorem put_get (h : t.get p = some d) : t.put p (some d) = t := by
  induction p generalizing t with
  | nil =>
    rw [get_nil] at h
    rw [put_nil, some.inj h]
  | cons n p ih =>
    cases t with
    | file content => cases h
    | dir names child =>
      rw [get_cons] at h
      split at h
      · next hn =>
        rcases p with _ | ⟨k, p⟩
        · rw [get_nil] at h
          obtain rfl := some.inj h
          rw [put, if_pos hn, update_eq_self]
        · rw [put, ih h, update_eq_self]
      · cases h

theorem parent_of_get {n : Name} (h : t.get (p ++ [n]) = some d) :
    ∃ names child, t.get p = some (dir names child) := by
  induction p generalizing t with
  | nil =>
    cases t with
    | file content => cases h
    | dir names child => exact ⟨names, child, rfl⟩
  | cons m p ih =>
    cases t with
    | file content => cases h
    | dir names child =>
      rw [cons_append, get_cons] at h
      split at h
      · next hm =>
        obtain ⟨names', child', h⟩ := ih h
        exact ⟨names', child', by rw [get_cons, if_pos hm, h]⟩
      · cases h

end Node

/-! ## What a removal leaves -/

namespace MoveSite

variable {site : MoveSite} {t d : Node} {p old new : Path}

section Entries

variable {removed : Name → Option Node} {l names : List Name} (child : Name → Node)

theorem removeEntries_through (names : List Name) : (removeEntries removed l names child).2.2 = false ↔
    ∀ n ∈ l, removed n = none := by
  induction l generalizing names with
  | nil => simp [removeEntries]
  | cons n l ih =>
    rw [removeEntries]
    cases hn : removed n with
    | none => simpa [hn] using ih _
    | some left => simp [hn]

theorem mem_removeEntries {n : Name} (h : n ∈ (removeEntries removed l names child).1) : n ∈ names := by
  induction l generalizing names with
  | nil => exact h
  | cons m l ih =>
    rw [removeEntries] at h
    split at h
    · exact (mem_filter.mp (ih h)).1
    · exact h

theorem removeEntries_stopped (hl : ∀ n ∈ l, removed n ≠ none → n ∈ names)
    (h : (removeEntries removed l names child).2.2 = true) :
    (removeEntries removed l names child).1 ≠ [] := by
  induction l generalizing names with
  | nil => cases h
  | cons m l ih =>
    rw [removeEntries] at h ⊢
    split at h
    · next hm =>
      refine ih (fun n hn hne => mem_filter.mpr ⟨hl n (mem_cons_of_mem m hn) hne, ?_⟩) h
      rw [decide_eq_true_eq]
      rintro rfl
      exact hne hm
    · next left hm =>
      exact ne_nil_of_mem (hl m mem_cons_self (by simp [hm]))

end Entries

theorem remove_eq_none : site.remove p t = none ↔ site.Removable p t := by
  induction t generalizing p with
  | file content => simp [remove, Removable]
  | dir names child ih =>
    have hthrough : _ ↔ ∀ n ∈ names, site.Removable (p ++ [n]) (child n) :=
      (removeEntries_through child names).trans
        (forall₂_congr fun n _ => ih n)
    rw [remove, Removable, ← hthrough]
    dsimp only
    split
    · next h =>
      refine ⟨nofun, fun ⟨hstop, hlocked⟩ => ?_⟩
      rw [hstop, hlocked] at h
      cases h
    · next h => simpa using h

theorem remove_eq_self : site.remove p t = some t ↔ site.FirstLocked p t := by
  induction t generalizing p with
  | file content => simp [remove, FirstLocked]
  | dir names child ih =>
    rw [remove]
    rcases names with _ | ⟨n, names⟩
    · simp [removeEntries, FirstLocked]
    rw [FirstLocked, ← ih, removeEntries]
    cases hn : site.remove (p ++ [n]) (child n) with
    | none =>
      refine ⟨fun h => ?_, nofun⟩
      -- the name is not in what is left
      dsimp only at h
      split at h
      · injection h with h
        injection h with hnames
        have hmem := mem_removeEntries _ (hnames ▸ mem_cons_self : n ∈ _)
        simp at hmem
      · cases h
    | some left =>
      simp only [Bool.true_or, if_true, some.injEq, Node.dir.injEq, true_and]
      constructor
      · intro h
        have hleft := congrFun h n
        rwa [update_self] at hleft
      · rintro rfl
        exact update_eq_self n child

theorem locked_of_left {y x : Node} (h : site.remove p d = some y) (hx : x.replaces y) :
    site.locked p := by
  cases d with
  | file content =>
    rw [remove] at h
    split at h
    · assumption
    · cases h
  | dir names child =>
    have hleft := removeEntries_stopped child
      fun n (hn : n ∈ names) (_ : site.remove (p ++ [n]) (child n) ≠ none) => hn
    rw [remove] at h
    dsimp only at h
    split at h
    · next hstop =>
      obtain rfl := some.inj h
      rcases (Bool.or_eq_true _ _).mp hstop with hstop | hlocked
      · have hne := hleft hstop
        cases hnames : (removeEntries (fun n => site.remove (p ++ [n]) (child n)) names names
          child).1 with
        | nil => exact absurd hnames hne
        | cons n rest =>
          rw [hnames] at hx
          cases x <;> cases hx
      · exact hlocked
    · cases h

/-! ## One move -/

theorem get_clear (t : Node) (new : Path) : (site.clear t new).get new = (t.get new).bind (site.remove new) := by
  rw [clear]
  split
  · next h => rw [h]; rfl
  · next d h =>
    rw [h, bind_some]
    rcases eq_nil_or_concat new with rfl | ⟨p, n, rfl⟩
    · cases hleft : site.remove [] d with
      | some left => rw [Node.put_nil, Node.get_nil]
      | none =>
        have hroot : site.locked [] = false := by
          cases d with
          | file content => exact remove_eq_none.mp hleft
          | dir names child => exact (remove_eq_none.mp hleft).2
        rw [site.root] at hroot
        cases hroot
    · rw [concat_eq_append] at h ⊢
      obtain ⟨names, child, hp⟩ := Node.parent_of_get h
      exact Node.get_put hp n _

theorem get_clear_of_not {q : Path} (h : ¬ new <+: q) (h' : ¬ q <+: new) :
    (site.clear t new).get q = t.get q := by
  rw [clear]
  split
  · rfl
  · exact Node.get_put_of_not t _ h h'

theorem renameErrno_eq_zero : site.renameErrno t old new = 0 ↔ ∃ x, t.get old = some x ∧
    (old = new ∨ ¬ old <+: new ∧ ¬ new <+: old ∧ site.refuses old new = none ∧
      (∃ names child, t.get new.dropLast = some (.dir names child)) ∧
        ∀ y, t.get new = some y → site.locked new = false ∧ x.replaces y) := by
  rw [renameErrno]
  split
  · next h => simp [h]
  next x hx =>
  simp only [hx, some.injEq, exists_eq_left']
  by_cases hsame : old = new
  · simp [hsame]
  by_cases habove : old <+: new
  · simp [hsame, habove]
  by_cases hbelow : new <+: old
  · simp [hsame, habove, hbelow]
  simp only [hsame, habove, hbelow, if_false, false_or, not_false_eq_true, true_and]
  split
  · next e he => simpa [he] using fun h : e = 0 => site.refuses_ne (h ▸ he)
  next hr =>
  cases hparent : t.get new.dropLast with
  | none => simp
  | some parent =>
    cases parent with
    | file content => simp
    | dir names child => cases hy : t.get new <;> simp [hr]

theorem get_renamed (hne : old ≠ new) (habove : ¬ old <+: new) (hbelow : ¬ new <+: old)
    {names : List Name} {child : Name → Node} (hparent : t.get new.dropLast = some (.dir names child)) :
    (renamed t old new).get new = t.get old := by
  rcases eq_nil_or_concat new with rfl | ⟨p, n, rfl⟩
  · exact absurd nil_prefix hbelow
  rw [concat_eq_append] at *
  rw [dropLast_concat] at hparent
  rw [renamed, if_neg hne]
  -- the directory is still there, when the old place is empty
  have hdir : ∃ names child, (t.put old none).get p = some (.dir names child) := by
    by_cases hp : p <+: old
    · obtain ⟨rest, rfl⟩ := hp
      cases rest with
      | nil => exact absurd ⟨[n], by simp⟩ habove
      | cons m rest => exact Node.get_put_below hparent m rest none
    · rw [Node.get_put_of_not t none (fun h => habove (h.trans ⟨[n], rfl⟩)) hp]
      exact ⟨_, _, hparent⟩
  obtain ⟨names', child', hdir⟩ := hdir
  exact Node.get_put hdir n _

theorem keepsItems_split : site.KeepsItems t old new ↔
    (site.renameErrno (site.clear t new) old new = 0 →
      (renamed (site.clear t new) old new).get new = t.get old) ∧
    (site.renameErrno (site.clear t new) old new ≠ 0 → site.clear t new = t) := by
  unfold KeepsItems moveItem
  by_cases h : site.renameErrno (site.clear t new) old new = 0 <;> simp [h]

theorem harmless_of_keeps (h : site.KeepsItems t old new) (hd : t.get new = some d)
    (hfirst : ¬ site.FirstLocked new d) : site.Performable t d old new := by
  have hget : (site.clear t new).get new = _ := get_clear t new
  rw [hd, bind_some] at hget
  have hchanged : (site.clear t new).get new ≠ t.get new := by
    rw [hget, hd]
    exact fun h => hfirst (remove_eq_self.mp h)
  obtain ⟨hmoved, hfailed⟩ := keepsItems_split.mp h
  by_cases hok : site.renameErrno (site.clear t new) old new = 0
  swap
  · exact absurd (by rw [hfailed hok]) hchanged
  obtain ⟨x, hx, rfl | ⟨habove, hbelow, hrefuses, -, hleft⟩⟩ := renameErrno_eq_zero.mp hok
  · have hmoved := hmoved hok
    rw [renamed, if_pos rfl] at hmoved
    exact absurd hmoved hchanged
  · rw [get_clear_of_not hbelow habove] at hx
    refine ⟨by rw [hx]; rfl, habove, hbelow, hrefuses, remove_eq_none.mp ?_⟩
    cases hremove : site.remove new d with
    | none => rfl
    | some y =>
      obtain ⟨hlocked, hreplaces⟩ := hleft y (hget.trans hremove)
      rw [locked_of_left hremove hreplaces] at hlocked
      cases hlocked

theorem keeps_of_performable (hd : t.get new = some d) (h : site.Performable t d old new) :
    site.KeepsItems t old new := by
  obtain ⟨hsource, habove, hbelow, hrefuses, hremovable⟩ := h
  have hnone : (site.clear t new).get new = none := by
    rw [get_clear, hd, bind_some, remove_eq_none.mpr hremovable]
  have hold : (site.clear t new).get old = _ := get_clear_of_not hbelow habove
  have hparent : ∃ names child, (site.clear t new).get new.dropLast = some (.dir names child) := by
    rcases eq_nil_or_concat new with rfl | ⟨p, n, rfl⟩
    · exact absurd nil_prefix hbelow
    · rw [concat_eq_append] at hd hremovable ⊢
      obtain ⟨names, child, hp⟩ := Node.parent_of_get hd
      rw [dropLast_concat, clear, hd]
      exact Node.get_put_below hp n [] _
  obtain ⟨x, hx⟩ := isSome_iff_exists.mp hsource
  have hok : site.renameErrno (site.clear t new) old new = 0 :=
    renameErrno_eq_zero.mpr ⟨x, hold.trans hx, .inr ⟨habove, hbelow, hrefuses, hparent,
      fun y hy => by rw [hnone] at hy; cases hy⟩⟩
  obtain ⟨_, _, hparent⟩ := hparent
  have hne : old ≠ new := fun h => habove (h ▸ prefix_rfl)
  exact keepsItems_split.mpr ⟨fun _ => by rw [get_renamed hne habove hbelow hparent, hold], absurd hok⟩

theorem keeps_of_clear (hclear : site.clear t new = t) : site.KeepsItems t old new := by
  rw [keepsItems_split, hclear]
  refine ⟨fun hok => ?_, fun _ => rfl⟩
  obtain ⟨x, hx, hcases⟩ := renameErrno_eq_zero.mp hok
  by_cases hne : old = new
  · rw [renamed, if_pos hne, hne]
  · obtain ⟨habove, hbelow, -, ⟨_, _, hparent⟩, -⟩ := hcases.resolve_left hne
    exact get_renamed hne habove hbelow hparent

/-- **One move.** -/
theorem keepsItems_iff : site.KeepsItems t old new ↔ site.Harmless t old new := by
  constructor
  · intro h d hd
    by_cases hfirst : site.FirstLocked new d
    · exact .inr hfirst
    · exact .inl (harmless_of_keeps h hd hfirst)
  · intro h
    cases hd : t.get new with
    | none => exact keeps_of_clear (by rw [clear, hd])
    | some d =>
      rcases h d hd with hperf | hfirst
      · exact keeps_of_performable hd hperf
      · refine keeps_of_clear ?_
        rw [clear, hd]
        exact (congrArg (t.put new) (remove_eq_self.mpr hfirst)).trans (Node.put_get hd)

/-! ## The message -/

theorem errnoToDeviceError_ne {errno : Nat} (h : errno ≠ 0) : errnoToDeviceError errno ≠ 0 := by
  unfold errnoToDeviceError
  split
  · decide
  split
  · decide
  · omega

theorem moveItems_status (moves : List (Path × Path)) (t : Node) :
    (site.moveItems (some moves) t).2 = 0 ↔
      ∀ a ∈ site.reached moves t, (site.moveItem a.1 a.2.1 a.2.2).2 = 0 := by
  induction moves generalizing t with
  | nil => simp [moveItems, reached]
  | cons move moves ih =>
    obtain ⟨old, new⟩ := move
    rw [moveItems, reached]
    by_cases hok : (site.moveItem t old new).2 = 0
    · simp [hok, ih]
    · simpa [hok] using errnoToDeviceError_ne hok

/-- **Moves lose nothing**, for every tree and every series of them, exactly where each one that is
reached has nothing at its new place, can be performed, or finds that place locked. -/
theorem moveItems_iff (site : MoveSite) (moves : List (Path × Path)) (t : Node) :
    site.LosesNothing moves t ↔
      ∀ a ∈ site.reached moves t, site.Harmless a.1 a.2.1 a.2.2 :=
  ⟨fun h a ha => keepsItems_iff.mp (h.keeps a ha),
    fun h => ⟨fun a ha => keepsItems_iff.mpr (h a ha), moveItems_status moves t⟩⟩

/-- A file that is moved to its own place is gone. -/
theorem moveItems_refuted : ¬ ∀ (site : MoveSite) (moves : List (Path × Path)) (t : Node),
    site.LosesNothing moves t := by
  intro h
  have hkeeps := (h ⟨fun p => p = [], fun _ _ => none, nofun, rfl⟩ [([[97]], [[97]])]
    (.dir [[97]] fun _ => .file [1])).keeps _ mem_cons_self
  have hget := congrArg (fun t => (t.get [[97]]).isSome) hkeeps
  revert hget
  decide

end MoveSite

end IDeviceStack.Libimobiledevice
