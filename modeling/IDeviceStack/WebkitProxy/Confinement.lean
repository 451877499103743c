/-
# `WebkitProxy.Confinement` — files of the frontend

`iwdp_get_frontend_path` puts the directory of the frontend in front of what a request asks
for: the characters of a path behind `/devtools/`, without `..`, or the file of the
frontend if there are none.

* A path is taken apart at its slashes; one or more of them behind a directory are one.
* The lengths are below 2³¹, so that the casts to `int` in the format of the path change nothing.

**Proved here.**  `frontendPath_confined_iff`.
-/
import IDeviceStack.WebkitProxy.Browser

namespace IDeviceStack.WebkitProxy.Iwdp

open Libplist List Option

/-- The frontend without its file: `/qux/` of `/qux/inspector.html`. -/
def frontendDir (fePath : Str) : Str :=
  fePath.take (fePath.length - ((afterLast slash fePath).getD fePath).length)

def components (path : Str) : List Str := path.splitOn slash

def IsAbsolute (path : Str) : Prop := path.head? = some slash

instance (path : Str) : Decidable (IsAbsolute path) := inferInstanceAs (Decidable (_ = _))

/-- The path is the directory and a relative path without `..`. -/
def Confined (dir path : Str) : Prop :=
  ∃ rel, path = dir ++ rel ∧ ascii ".." ∉ components rel ∧ (dir = [] → ¬ IsAbsolute rel)

/-- What is left of `/devtools/foo/bar.html?q`: `foo/bar.html`. -/
def trimmed (resource : Str) : Str := (resource.drop 10).takeWhile isPathChar

/-- `..` is part of it. -/
def HasDots (s : Str) : Prop := ascii ".." <:+: s

instance (s : Str) : Decidable (HasDots s) := inferInstanceAs (Decidable (_ <:+: _))

/-- The requests that lead out of the directory. -/
structure LeadsOut (fePath resource : Str) : Prop where
  devtools : startsWith resource "/devtools/" = true
  out : slash ∉ fePath ∧ IsAbsolute (trimmed resource) ∧ ¬ HasDots (trimmed resource) ∨
    trimmed resource = [] ∧ afterLast slash fePath = some (ascii "..")

/-! ## The pieces -/

section Pieces

variable {fePath resource : Str}

theorem length_takeWhile_slashes (res : Str) :
    (res.takeWhile (· = slash)).length +
        ((res.drop (res.takeWhile (· = slash)).length).takeWhile isPathChar).length =
      (res.takeWhile isPathChar).length := by
  induction res with
  | nil => rfl
  | cons c res ih =>
    by_cases hc : c = slash
    · subst hc
      have hslash : isPathChar slash = true := by decide
      rw [takeWhile_cons_of_pos (by simp), takeWhile_cons_of_pos hslash,
        length_cons, length_cons, drop_succ_cons, ← ih]
      omega
    · rw [takeWhile_cons_of_neg (by simpa using hc), length_nil, Nat.zero_add, drop_zero]

theorem strnstr_eq_none_iff {s needle : List UInt8} (hs : (0 : UInt8) ∉ s) (hneedle : needle ≠ []) :
    strnstr s needle = none ↔ ¬ needle <:+: s := by
  induction s with
  | nil => simp [strnstr, hneedle]
  | cons c s ih =>
    have hc : c ≠ 0 := fun h => hs (h ▸ mem_cons_self)
    rw [strnstr, if_neg hc, infix_cons_iff]
    by_cases hhere : needle.isPrefixOf (c :: s) = true
    · rw [if_pos hhere]
      exact iff_of_false nofun fun h => h (.inl ( isPrefixOf_iff_prefix.1 hhere))
    · rw [if_neg hhere, map_eq_none_iff, ih fun h => hs (mem_cons_of_mem c h)]
      rw [ isPrefixOf_iff_prefix] at hhere
      exact ⟨fun h h' => h'.elim hhere h, fun h h' => h (.inr h')⟩

theorem zero_notMem_trimmed (resource : Str) : (0 : UInt8) ∉ trimmed resource := by
  intro h
  have hchar := mem_takeWhile_imp h
  revert hchar
  decide

theorem infix_of_mem_components {path name : Str} (h : name ∈ components path) :
    name <:+: path := by
  have hjoin : [slash].intercalate (path.splitOn slash) = path := intercalate_splitOn slash
  rw [← hjoin, List.intercalate]
  refine infix_of_mem_flatten ?_
  revert h
  rw [components]
  generalize path.splitOn slash = names
  intro h
  induction names with
  | nil => exact absurd h not_mem_nil
  | cons x names ih =>
    cases names with
    | nil => exact h
    | cons y names =>
      rw [intersperse_cons_cons]
      rcases mem_cons.1 h with rfl | h
      · exact mem_cons_self
      · exact mem_cons_of_mem _ (mem_cons_of_mem _ (ih h))

theorem frontendDir_append {file : Str} (h : afterLast slash fePath = some file) :
    fePath = frontendDir fePath ++ file ∧ slash ∉ file ∧ frontendDir fePath ≠ [] := by
  have hdir : frontendDir fePath = fePath.take (fePath.length - file.length) := by
    rw [frontendDir, h, getD_some]
  rw [afterLast] at h
  split at h
  · next hslash =>
      obtain rfl := some.inj h
      have hsuffix : (fePath.reverse.takeWhile (· ≠ slash)).reverse <:+ fePath := by
        have hreverse := reverse_suffix.2 (fePath.reverse.takeWhile_prefix (· ≠ slash))
        rwa [reverse_reverse] at hreverse
      have hnone : slash ∉ (fePath.reverse.takeWhile (· ≠ slash)).reverse := by
        intro hmem
        have hne := mem_takeWhile_imp (mem_reverse.1 hmem)
        simp at hne
      generalize (fePath.reverse.takeWhile (· ≠ slash)).reverse = file at hdir hsuffix hnone ⊢
      obtain ⟨dir, rfl⟩ := hsuffix
      rw [length_append, Nat.add_sub_cancel, take_left] at hdir
      refine ⟨by rw [hdir], hnone, fun hnil => ?_⟩
      rw [hdir] at hnil
      rw [hnil, nil_append] at hslash
      exact hnone hslash
  · cases h

theorem frontendDir_none (h : afterLast slash fePath = none) :
    frontendDir fePath = [] ∧ slash ∉ fePath := by
  refine ⟨by rw [frontendDir, h, getD_none, Nat.sub_self, take_zero], fun hslash => ?_⟩
  rw [afterLast, if_pos hslash] at h
  cases h

theorem iwdpGetFrontendPath_eq_some_iff {path : Str} :
    iwdpGetFrontendPath fePath resource = some path ↔
      startsWith resource "/devtools/" = true ∧ ¬ HasDots (trimmed resource) ∧
        path = frontendDir fePath ++
          if trimmed resource = [] then (afterLast slash fePath).getD [] else trimmed resource := by
  have hlen := length_takeWhile_slashes (resource.drop 10)
  have htake : (resource.drop 10).take (trimmed resource).length = trimmed resource :=
    prefix_iff_eq_take.1 ( takeWhile_prefix _) |>.symm
  have hdots : (strnstr (trimmed resource) (ascii "..")).isSome = true ↔
      HasDots (trimmed resource) := by
    rw [HasDots, ← not_iff_not, Bool.not_eq_true, isSome_eq_false_iff, isNone_iff_eq_none]
    exact strnstr_eq_none_iff (zero_notMem_trimmed resource) (by decide)
  simp only [iwdpGetFrontendPath]
  rw [hlen, ← trimmed, htake]
  by_cases hstart : startsWith resource "/devtools/" = true
  · rw [if_neg (not_not.2 hstart)]
    by_cases hpart : HasDots (trimmed resource)
    · rw [if_pos (hdots.2 hpart)]
      exact iff_of_false nofun fun h => h.2.1 hpart
    · rw [if_neg fun h => hpart (hdots.1 h), some_inj]
      refine Iff.trans ?_ (Iff.symm ((and_iff_right hstart).trans (and_iff_right hpart)))
      rw [eq_comm, frontendDir]
      cases afterLast slash fePath with
      | none =>
        rw [getD_none, getD_none, Nat.sub_self, take_zero]
        by_cases hnil : trimmed resource = []
        · rw [if_pos hnil, hnil]
        · rw [if_neg hnil]
      | some file => simp only [length_eq_zero_iff, getD_some]
  · rw [if_pos hstart]
    exact iff_of_false nofun fun h => hstart h.1

end Pieces

/-- **Confinement.**  A path that is returned is inside the directory of the frontend if and only if
the request does not lead out of it. -/
theorem frontendPath_confined_iff (fePath resource : Str) :
    (∀ path, iwdpGetFrontendPath fePath resource = some path → Confined (frontendDir fePath) path) ↔
      ¬ LeadsOut fePath resource := by
  constructor
  · rintro h ⟨hstart, ⟨hslash, habsolute, hdots⟩ | ⟨hnil, hfile⟩⟩
    · -- a file without a directory, and a path with a slash in front
      have hdir := (frontendDir_none (if_neg hslash)).1
      have hne : trimmed resource ≠ [] := by
        intro hnil
        rw [hnil] at habsolute
        cases habsolute
      obtain ⟨rel, hrel, -, hroot⟩ :=
        h _ (iwdpGetFrontendPath_eq_some_iff.2 ⟨hstart, hdots, rfl⟩)
      rw [if_neg hne] at hrel
      rw [append_cancel_left hrel] at habsolute
      exact hroot hdir habsolute
    · have hdots : ¬ HasDots (trimmed resource) := by
        rw [hnil]
        decide
      obtain ⟨rel, hrel, hparent, -⟩ :=
        h _ (iwdpGetFrontendPath_eq_some_iff.2 ⟨hstart, hdots, rfl⟩)
      rw [if_pos hnil, hfile, getD_some] at hrel
      rw [← append_cancel_left hrel] at hparent
      exact hparent (by decide)
  · intro hout path hpath
    obtain ⟨hstart, hdots, rfl⟩ := iwdpGetFrontendPath_eq_some_iff.1 hpath
    refine ⟨_, rfl, ?_⟩
    by_cases hnil : trimmed resource = []
    · rw [if_pos hnil]
      cases hfile : afterLast slash fePath with
      | none => exact ⟨by decide, fun _ => nofun⟩
      | some file =>
        obtain ⟨-, hslash, hdir⟩ := frontendDir_append hfile
        refine ⟨fun hmem => ?_, fun hno => absurd hno hdir⟩
        rw [getD_some, components, splitOn_eq_singleton hslash] at hmem
        rw [← mem_singleton.1 hmem] at hfile
        exact hout ⟨hstart, .inr ⟨hnil, hfile⟩⟩
    · rw [if_neg hnil]
      refine ⟨fun hmem => hdots (infix_of_mem_components hmem), fun hdir habsolute => ?_⟩
      refine hout ⟨hstart, .inl ⟨fun hslash => ?_, habsolute, hdots⟩⟩
      cases hfile : afterLast slash fePath with
      | none => exact (frontendDir_none hfile).2 hslash
      | some file => exact (frontendDir_append hfile).2.2 hdir

/-- A file of the frontend, and one of the host that it lies on. -/
theorem frontendPath_refuted : ¬ ∀ path,
    iwdpGetFrontendPath (ascii "inspector.html") (ascii "/devtools//etc/passwd") = some path →
      Confined (frontendDir (ascii "inspector.html")) path := by
  intro h
  obtain ⟨rel, hrel, -, hroot⟩ := h (ascii "/etc/passwd") (by decide)
  have hdir : frontendDir (ascii "inspector.html") = [] := by decide
  rw [hdir, nil_append] at hrel
  exact hroot hdir (hrel ▸ by decide)

end IDeviceStack.WebkitProxy.Iwdp
