/-
# `Libplist.Bplist.Decode` — the tree that a graph stands for

`decode` unfolds a graph into a tree, without any bookkeeping; it has a result
exactly if there is no cycle below the object.  Objects that are shared are unfolded
as often as they are referred to.

The reader returns this tree (`walkAt_of_decode`): its recursion check does not
fire, because an object that is being parsed cannot be unfolded with the fuel that
is enough for the ones below it.  And it returns no other (`decode_of_walkAt`).
-/
import IDeviceStack.Libplist.Bplist.Recursion

namespace IDeviceStack.Libplist.Bplist

open List Option

/-- The elements of an array, each by `f`. -/
def decodeArray (f : Nat → Option Plist) : List (Option Nat) → Option (List Plist)
  | [] => some []
  | none :: _ => none
  | some i :: refs => do
      let val ← f i
      let rest ← decodeArray f refs
      some (val :: rest)

/-- The keys and values of a dictionary, each by `f`. -/
def decodeDict (f : Nat → Option Plist) : List (Option (Nat × Nat)) → Option (List Plist)
  | [] => some []
  | none :: _ => none
  | some (i, j) :: refs => do
      let key ← (f i).bind asKey
      let val ← f j
      let rest ← decodeDict f refs
      some (key :: val :: rest)

/-- The tree below an object. -/
def decode (graph : Nat → Option Obj) : Nat → Nat → Option Plist
  | 0, _ => none
  | fuel + 1, i =>
    match graph i with
    | none => none
    | some (.leaf node) => node
    | some (.array refs) => (decodeArray (decode graph fuel) refs).map .array
    | some (.dict refs) => (decodeDict (decode graph fuel) refs).map .dict

/-! ## Fuel -/

theorem decodeArray_mono {f g : Nat → Option Plist} (hfg : ∀ i t, f i = some t → g i = some t)
    {refs : List (Option Nat)} {ts : List Plist} (h : decodeArray f refs = some ts) :
    decodeArray g refs = some ts := by
  induction refs generalizing ts with
  | nil => exact h
  | cons r refs ih =>
    cases r with
    | none => exact h
    | some i =>
      simp only [decodeArray, bind_eq_bind, bind_eq_some_iff] at h ⊢
      obtain ⟨val, hval, rest, hrest, heq⟩ := h
      exact ⟨val, hfg i val hval, rest, ih hrest, heq⟩

theorem decodeDict_mono {f g : Nat → Option Plist} (hfg : ∀ i t, f i = some t → g i = some t)
    {refs : List (Option (Nat × Nat))} {ts : List Plist} (h : decodeDict f refs = some ts) :
    decodeDict g refs = some ts := by
  induction refs generalizing ts with
  | nil => exact h
  | cons r refs ih =>
    cases r with
    | none => exact h
    | some r =>
      simp only [decodeDict, bind_eq_bind, bind_eq_some_iff] at h ⊢
      obtain ⟨key, ⟨str, hstr, hkey⟩, val, hval, rest, hrest, heq⟩ := h
      exact ⟨key, ⟨str, hfg _ _ hstr, hkey⟩, val, hfg _ _ hval, rest, ih hrest, heq⟩

theorem decode_succ {graph : Nat → Option Obj} {fuel : Nat} :
    ∀ i t, decode graph fuel i = some t → decode graph (fuel + 1) i = some t := by
  induction fuel with
  | zero =>
    intro i t h
    cases h
  | succ fuel ih =>
    intro i t h
    rw [decode] at h ⊢
    cases hobj : graph i with
    | none =>
      rw [hobj] at h
      exact h
    | some obj =>
      rw [hobj] at h
      cases obj with
      | leaf node => exact h
      | array refs =>
        obtain ⟨ts, hts, heq⟩ := map_eq_some_iff.mp h
        exact map_eq_some_iff.mpr ⟨ts, decodeArray_mono ih hts, heq⟩
      | dict refs =>
        obtain ⟨ts, hts, heq⟩ := map_eq_some_iff.mp h
        exact map_eq_some_iff.mpr ⟨ts, decodeDict_mono ih hts, heq⟩

theorem decode_of_le {graph : Nat → Option Obj} {fuel fuel' : Nat} (hle : fuel ≤ fuel') {i : Nat}
    {t : Plist} (h : decode graph fuel i = some t) : decode graph fuel' i = some t := by
  induction hle with
  | refl => exact h
  | step _ ih => exact decode_succ i t ih

/-! ## The reader -/

section Reader

variable {atIndex : Nat → ParseState → Parsed} {f : Nat → Option Plist} {path : List Nat}

/-- `atIndex` returns what `f` says, and leaves the entries for `path` in place. -/
def Yields (atIndex : Nat → ParseState → Parsed) (f : Nat → Option Plist) (path : List Nat) : Prop :=
  ∀ i t st, f i = some t → Tracks path st →
    ∃ st', atIndex i st = .ok (some t, st') ∧ Tracks path st'

theorem walkArray_of_decode (hat : Yields atIndex f path) {refs : List (Option Nat)}
    {ts : List Plist} (h : decodeArray f refs = some ts) (children : List Plist) {st : ParseState}
    (ht : Tracks path st) :
    ∃ st', walkArray atIndex refs children st = .ok (some (.array (children ++ ts)), st') ∧
      Tracks path st' := by
  induction refs generalizing children st ts with
  | nil =>
    cases h
    exact ⟨st, by rw [append_nil]; rfl, ht⟩
  | cons r refs ih =>
    cases r with
    | none => cases h
    | some i =>
      simp only [decodeArray, bind_eq_bind, bind_eq_some_iff] at h
      obtain ⟨val, hval, rest, hrest, heq⟩ := h
      cases heq
      obtain ⟨st1, hrun, ht1⟩ := hat i val st hval ht
      obtain ⟨st2, hrun2, ht2⟩ := ih hrest (children ++ [val]) ht1
      refine ⟨st2, ?_, ht2⟩
      simp only [walkArray, hrun, ok_bind]
      rw [hrun2, append_assoc, singleton_append]

theorem walkDict_of_decode (hat : Yields atIndex f path) {refs : List (Option (Nat × Nat))}
    {ts : List Plist} (h : decodeDict f refs = some ts) (children : List Plist) {st : ParseState}
    (ht : Tracks path st) :
    ∃ st', walkDict atIndex refs children st = .ok (some (.dict (children ++ ts)), st') ∧
      Tracks path st' := by
  induction refs generalizing children st ts with
  | nil =>
    cases h
    exact ⟨st, by rw [append_nil]; rfl, ht⟩
  | cons r refs ih =>
    cases r with
    | none => cases h
    | some r =>
      simp only [decodeDict, bind_eq_bind, bind_eq_some_iff] at h
      obtain ⟨key, ⟨str, hstr, hkey⟩, val, hval, rest, hrest, heq⟩ := h
      cases heq
      obtain ⟨st1, hrun1, ht1⟩ := hat _ str st hstr ht
      obtain ⟨st2, hrun2, ht2⟩ := hat _ val st1 hval ht1
      obtain ⟨st3, hrun3, ht3⟩ := ih hrest (children ++ [key, val]) ht2
      refine ⟨st3, ?_, ht3⟩
      simp only [walkDict, hrun1, ok_bind, bind_some, hkey, hrun2]
      rw [hrun3, append_assoc]
      rfl

end Reader

/-- **The reader returns the tree.**  The objects being parsed are those that cannot be unfolded
with this fuel, so the object at hand is none of them. -/
theorem walkAt_of_decode {graph : Nat → Option Obj} {n fuel : Nat} (hfuel : n ≤ fuel)
    {path : List Nat} (hpath : ∀ j ∈ path, decode graph n j = none) :
    Yields (walkAt graph fuel path) (decode graph n) path := by
  induction n generalizing fuel path with
  | zero =>
    intro i t st h
    cases h
  | succ n ih =>
    intro i t st h ht
    have hnone : ∀ j ∈ path, decode graph n j = none := by
      intro j hj
      cases hd : decode graph n j with
      | none => rfl
      | some t' =>
        have hsucc := decode_succ j t' hd
        rw [hpath j hj] at hsucc
        cases hsucc
    -- with less fuel there is nothing to do
    cases hless : decode graph n i with
    | some t' =>
      have heq := decode_succ i t' hless
      rw [h] at heq
      cases heq
      exact ih (by omega) hnone i t st hless ht
    | none =>
      obtain ⟨fuel, rfl⟩ : ∃ k, fuel = k + 1 := ⟨fuel - 1, by omega⟩
      have hmem : i ∉ path := by
        intro hi
        rw [hpath i hi] at h
        cases h
      have hbelow := ih (show n ≤ fuel by omega) (show ∀ j ∈ path ++ [i], decode graph n j = none by
        intro j hj
        rcases mem_append.mp hj with hj | hj
        · exact hnone j hj
        · rw [mem_singleton.mp hj]
          exact hless)
      rw [decode] at h
      cases hobj : graph i with
      | none =>
        rw [hobj] at h
        cases h
      | some obj =>
        rw [hobj] at h
        have htake := noteIndex_take ht.used i
        have hrec : ¬ recursionDetected (noteIndex st.usedIndexes path.length i)
            path.length = true := fun hr => hmem ((recursionDetected_iff htake).mp hr)
        obtain ⟨st1, hst1⟩ : ∃ s : ParseState, s = ⟨path.length + 1,
          noteIndex st.usedIndexes path.length i, st.calls ++
            [⟨path, i, path.length, noteIndex st.usedIndexes path.length i,
              recursionDetected (noteIndex st.usedIndexes path.length i) path.length⟩]⟩ :=
          ⟨_, rfl⟩
        have ht1 : Tracks (path ++ [i]) st1 := by
          subst hst1
          exact ⟨by simp, by simpa using htake⟩
        obtain ⟨st2, hrun, ht2⟩ : ∃ st2,
            walkObj (walkAt graph fuel (path ++ [i])) obj st1 = .ok (some t, st2) ∧
              Tracks (path ++ [i]) st2 := by
          cases obj with
          | leaf node =>
            obtain rfl : node = some t := h
            exact ⟨st1, rfl, ht1⟩
          | array refs =>
            obtain ⟨ts, hts, rfl⟩ := map_eq_some_iff.mp h
            exact walkArray_of_decode hbelow hts [] ht1
          | dict refs =>
            obtain ⟨ts, hts, rfl⟩ := map_eq_some_iff.mp h
            exact walkDict_of_decode hbelow hts [] ht1
        refine ⟨⟨st2.level - 1, st2.usedIndexes, st2.calls⟩, ?_, ⟨?_, ?_⟩⟩
        · rw [walkAt]
          simp only [hobj, ht.level]
          rw [if_neg hrec, ← hst1, hrun]
          rfl
        · simp [ht2.level]
        · have hused := congrArg (List.take path.length) ht2.used
          simpa [take_take] using hused

/-! ## Back from the reader -/

section Found

variable {atIndex : Nat → ParseState → Parsed} {f : Nat → Option Plist}

/-- What `atIndex` returns is what `f` says. -/
def Finds (atIndex : Nat → ParseState → Parsed) (f : Nat → Option Plist) : Prop :=
  ∀ i t st st', atIndex i st = .ok (some t, st') → f i = some t

theorem decodeArray_of_walkArray (hat : Finds atIndex f) {refs : List (Option Nat)}
    {children : List Plist} {st st' : ParseState} {t : Plist}
    (h : walkArray atIndex refs children st = .ok (some t, st')) :
    ∃ ts, decodeArray f refs = some ts ∧ t = .array (children ++ ts) := by
  induction refs generalizing children st with
  | nil =>
    cases h
    exact ⟨[], rfl, by rw [append_nil]⟩
  | cons r refs ih =>
    cases r with
    | none => cases h
    | some i =>
      obtain ⟨⟨node, st1⟩, hrun, hrest⟩ := bind_eq_ok h
      cases node with
      | none => cases hrest
      | some val =>
        obtain ⟨ts, hts, rfl⟩ := ih hrest
        refine ⟨val :: ts, ?_, by rw [append_assoc, singleton_append]⟩
        simp only [decodeArray, hat i val st st1 hrun, hts, bind_eq_bind, bind_some]

theorem decodeDict_of_walkDict (hat : Finds atIndex f) {refs : List (Option (Nat × Nat))}
    {children : List Plist} {st st' : ParseState} {t : Plist}
    (h : walkDict atIndex refs children st = .ok (some t, st')) :
    ∃ ts, decodeDict f refs = some ts ∧ t = .dict (children ++ ts) := by
  induction refs generalizing children st with
  | nil =>
    cases h
    exact ⟨[], rfl, by rw [append_nil]⟩
  | cons r refs ih =>
    cases r with
    | none => cases h
    | some r =>
      obtain ⟨⟨str, st1⟩, hrun, hrest⟩ := bind_eq_ok h
      dsimp only at hrest
      cases hkey : str.bind asKey with
      | none =>
        rw [hkey] at hrest
        cases hrest
      | some key =>
        rw [hkey] at hrest
        obtain ⟨str', rfl, hasKey⟩ := bind_eq_some_iff.mp hkey
        obtain ⟨⟨node, st2⟩, hrun', hrest'⟩ := bind_eq_ok hrest
        cases node with
        | none => cases hrest'
        | some val =>
          obtain ⟨ts, hts, rfl⟩ := ih hrest'
          refine ⟨key :: val :: ts, ?_, by rw [append_assoc]; rfl⟩
          simp only [decodeDict, hat r.1 str' st st1 hrun, hat r.2 val st1 st2 hrun', hasKey,
            hts, bind_eq_bind, bind_some]

end Found

/-- **The reader returns no other tree.** -/
theorem decode_of_walkAt (graph : Nat → Option Obj) (fuel : Nat) (path : List Nat) :
    Finds (walkAt graph fuel path) (decode graph fuel) := by
  induction fuel generalizing path with
  | zero =>
    intro i t st st' h
    cases h
  | succ fuel ih =>
    intro i t st st' h
    rw [walkAt] at h
    rw [decode]
    cases hobj : graph i with
    | none =>
      rw [hobj] at h
      cases h
    | some obj =>
      rw [hobj] at h
      dsimp only at h ⊢
      split at h
      · cases h
      · obtain ⟨⟨plist, st1⟩, hrun, hrest⟩ := bind_eq_ok h
        obtain rfl : plist = some t := by
          cases hrest
          rfl
        cases obj with
        | leaf node =>
          cases hrun
          rfl
        | array refs =>
          obtain ⟨ts, hts, rfl⟩ := decodeArray_of_walkArray (ih _) hrun
          simp only [hts, map_some, nil_append]
        | dict refs =>
          obtain ⟨ts, hts, rfl⟩ := decodeDict_of_walkDict (ih _) hrun
          simp only [hts, map_some, nil_append]

end IDeviceStack.Libplist.Bplist
