/-
# `Libplist.Bplist.Recursion` — the recursion check of the reader

`used_indexes` is one array for the whole run.  The call for an object at nesting
level `L` puts the object's index at position `L` (at the end, if the array is too
short) and looks for the same index at the positions below.  What is above `L` is
left over from earlier siblings.

The invariant is that the first `L` entries are the objects being parsed
(`Tracks`).  It says that the check is right: it finds an index if and only if the
object is being parsed already.  So the objects being parsed are always distinct,
there are at most as many levels as objects, and the reader terminates; an object
that is reported reaches itself; and if a plist is returned, no object that was
reached does.
-/
import IDeviceStack.Libplist.Array
import IDeviceStack.Libplist.Bplist.Bounds
import Mathlib.Logic.Relation

namespace IDeviceStack.Libplist.Bplist

open Relation List

/-! ## The graph -/

/-- The references of an object that are in range. -/
def Obj.children : Obj → List Nat
  | .leaf _ => []
  | .array refs => refs.filterMap id
  | .dict refs => (refs.filterMap id).flatMap fun r => [r.1, r.2]

/-- Object `i` refers to object `j`, as an element, a key or a value. -/
def Refers (graph : Nat → Option Obj) (i j : Nat) : Prop :=
  ∃ obj, graph i = some obj ∧ j ∈ obj.children

/-- Nothing that `i` reaches is in `path`, or reaches itself. -/
def Grounded (graph : Nat → Option Obj) (path : List Nat) (i : Nat) : Prop :=
  ∀ j, ReflTransGen (Refers graph) i j → j ∉ path ∧ ¬ TransGen (Refers graph) j j

theorem transGen_of_isChain {α : Type} {R : α → α → Prop} {path : List α} {i x : α}
    (hchain : List.IsChain R (path ++ [i])) (hx : x ∈ path) : TransGen R x i := by
  induction path generalizing x with
  | nil => cases hx
  | cons y path ih =>
    rw [cons_append] at hchain
    have hall : TransGen R y i := by
      cases path with
      | nil => exact .single (isChain_pair.mp hchain)
      | cons z path =>
        rw [cons_append, isChain_cons_cons] at hchain
        exact .head hchain.1 (ih hchain.2 mem_cons_self)
    rcases mem_cons.mp hx with rfl | hx
    · exact hall
    · exact ih hchain.tail hx

variable {graph : Nat → Option Obj} {path : List Nat} {i : Nat}

theorem Grounded.of_children {obj : Obj} (hobj : graph i = some obj) (hi : i ∉ path)
    (h : ∀ j ∈ obj.children, Grounded graph (path ++ [i]) j) : Grounded graph path i := by
  intro j hij
  rcases ReflTransGen.cases_head hij with rfl | ⟨k, ⟨obj', hobj', hk⟩, hkj⟩
  · refine ⟨hi, fun hcycle => ?_⟩
    obtain ⟨k, ⟨obj', hobj', hk⟩, hki⟩ := TransGen.head'_iff.mp hcycle
    obtain rfl := Option.some.inj (hobj.symm.trans hobj')
    exact (h k hk i hki).1 (by simp)
  · obtain rfl := Option.some.inj (hobj.symm.trans hobj')
    obtain ⟨hj, hcycle⟩ := h k hk j hkj
    exact ⟨fun hmem => hj (by simp [hmem]), hcycle⟩

/-! ## The check -/

/-- The entries below the current level are the objects being parsed. -/
structure Tracks (path : List Nat) (st : ParseState) : Prop where
  level : st.level = path.length
  used : st.usedIndexes.take path.length = path

theorem noteIndex_take {used : List Nat} (h : used.take path.length = path) (i : Nat) :
    (noteIndex used path.length i).take (path.length + 1) = path ++ [i] := by
  have hle : path.length ≤ used.length := by
    have := congrArg List.length h
    rw [length_take] at this
    omega
  rw [noteIndex]
  split
  · have hlen : used.length = path.length := by omega
    have hused : used = path := by rwa [← hlen, take_length] at h
    rw [hused, show path.length + 1 - path.length = 1 by omega, replicate_one,
      take_of_length_le (by simp)]
  · rw [take_add_one, take_set, h, List.getElem?_set_self (by omega), Option.toList_some,
      set_eq_of_length_le (by omega)]

theorem recursionDetected_iff {used : List Nat} (h : used.take (path.length + 1) = path ++ [i]) :
    recursionDetected used path.length = true ↔ i ∈ path := by
  have hget (k : Nat) (hk : k < path.length + 1) : used[k]? = (path ++ [i])[k]? := by
    rw [← h, List.getElem?_take_of_lt hk]
  have hlast : used[path.length]? = some i := by
    rw [hget _ (by omega)]
    simp
  rw [recursionDetected, any_eq_true, mem_iff_getElem?]
  constructor
  · rintro ⟨k, hk, heq⟩
    rw [mem_range] at hk
    rw [hlast, hget k (by omega), List.getElem?_append_left hk, List.getElem?_eq_getElem hk] at heq
    exact ⟨k, by rw [List.getElem?_eq_getElem hk, beq_iff_eq.mp heq]⟩
  · rintro ⟨k, hk⟩
    obtain ⟨hlt, -⟩ := List.getElem?_eq_some_iff.mp hk
    refine ⟨k, mem_range.mpr hlt, ?_⟩
    rw [hlast, hget k (by omega), List.getElem?_append_left hlt, hk]
    exact beq_self_eq_true i

/-! ## The loops -/

section Rules

variable {atIndex : Nat → ParseState → Parsed} {P : ParseState → Prop} {S : Nat → Prop}

/-- What is to be shown of a call: it returns, keeps `P`, and `Q` if there is a node. -/
def Returns (P : ParseState → Prop) (Q : Prop) (r : Parsed) : Prop :=
  ∃ node st, r = .ok (node, st) ∧ P st ∧ (node.isSome = true → Q)

theorem walkArray_returns (refs : List (Option Nat)) (children : List Plist) {st : ParseState}
    (hst : P st)
    (h : ∀ i ∈ (Obj.array refs).children, ∀ st, P st → Returns P (S i) (atIndex i st)) :
    Returns P (∀ i ∈ (Obj.array refs).children, S i) (walkArray atIndex refs children st) := by
  induction refs generalizing children st with
  | nil => exact ⟨_, _, rfl, hst, fun _ i hi => by cases hi⟩
  | cons r refs ih =>
    cases r with
    | none => exact ⟨_, _, rfl, hst, fun hnone => by cases hnone⟩
    | some i =>
      obtain ⟨node, st', hrun, hst', hS⟩ := h i (by simp [Obj.children]) st hst
      simp only [walkArray, hrun, ok_bind]
      cases node with
      | none => exact ⟨_, _, rfl, hst', fun hnone => by cases hnone⟩
      | some val =>
        obtain ⟨node, st'', hrun', hst'', hS'⟩ := ih (children ++ [val]) hst'
          (fun j hj => h j (by
            simp only [Obj.children, filterMap_cons, id] at hj ⊢
            exact mem_cons_of_mem i hj))
        refine ⟨node, st'', hrun', hst'', fun hsome j hj => ?_⟩
        simp only [Obj.children, filterMap_cons, id, mem_cons] at hj
        rcases hj with rfl | hj
        · exact hS rfl
        · exact hS' hsome j hj

theorem walkDict_returns (refs : List (Option (Nat × Nat))) (children : List Plist)
    {st : ParseState} (hst : P st)
    (h : ∀ i ∈ (Obj.dict refs).children, ∀ st, P st → Returns P (S i) (atIndex i st)) :
    Returns P (∀ i ∈ (Obj.dict refs).children, S i) (walkDict atIndex refs children st) := by
  induction refs generalizing children st with
  | nil => exact ⟨_, _, rfl, hst, fun _ i hi => by cases hi⟩
  | cons r refs ih =>
    cases r with
    | none => exact ⟨_, _, rfl, hst, fun hnone => by cases hnone⟩
    | some r =>
      obtain ⟨i, j⟩ := r
      obtain ⟨key, st', hrun, hst', hkey⟩ := h i (by simp [Obj.children]) st hst
      simp only [walkDict, hrun, ok_bind]
      cases hasKey : key.bind asKey with
      | none => exact ⟨_, _, rfl, hst', fun hnone => by cases hnone⟩
      | some key' =>
        have hsomeKey : key.isSome = true := by
          cases key with
          | none => cases hasKey
          | some _ => rfl
        obtain ⟨node, st'', hrun', hst'', hval⟩ := h j (by simp [Obj.children]) st' hst'
        simp only [hrun', ok_bind]
        cases node with
        | none => exact ⟨_, _, rfl, hst'', fun hnone => by cases hnone⟩
        | some val =>
          obtain ⟨node, st3, hrun3, hst3, hS⟩ := ih (children ++ [key', val]) hst''
            (fun k hk => h k (by
              simp only [Obj.children, filterMap_cons, id, flatMap_cons] at hk ⊢
              exact mem_append_right _ hk))
          refine ⟨node, st3, hrun3, hst3, fun hsome k hk => ?_⟩
          simp only [Obj.children, filterMap_cons, id, flatMap_cons,
            mem_append, mem_cons, not_mem_nil, or_false] at hk
          rcases hk with (rfl | rfl) | hk
          · exact hkey hsomeKey
          · exact hval rfl
          · exact hS hsome k hk

theorem walkObj_returns (obj : Obj) {st : ParseState} (hst : P st)
    (h : ∀ i ∈ obj.children, ∀ st, P st → Returns P (S i) (atIndex i st)) :
    Returns P (∀ i ∈ obj.children, S i) (walkObj atIndex obj st) := by
  cases obj with
  | leaf node => exact ⟨node, st, rfl, hst, fun _ i hi => by cases hi⟩
  | array refs => exact walkArray_returns refs [] hst h
  | dict refs => exact walkDict_returns refs [] hst h

end Rules

/-! ## The walk -/

/-- What the log says of one call. -/
structure Call.Good (graph : Nat → Option Obj) (root numObjects : Nat) (c : Call) : Prop where
  level : c.level = c.path.length
  used : c.used.take (c.level + 1) = c.path ++ [c.index]
  head : (c.path ++ [c.index]).head? = some root
  chain : List.IsChain (Refers graph) (c.path ++ [c.index])
  distinct : c.recursion = false → (c.path ++ [c.index]).Nodup
  depth : c.recursion = false → c.level + 1 ≤ numObjects
  cycle : c.recursion = true → TransGen (Refers graph) c.index c.index

/-- `path` leads from the root to `i`, over distinct objects. -/
structure PathTo (graph : Nat → Option Obj) (root : Nat) (path : List Nat) (i : Nat) : Prop where
  head : (path ++ [i]).head? = some root
  chain : List.IsChain (Refers graph) (path ++ [i])
  nodup : path.Nodup
  present : ∀ j ∈ path, graph j ≠ none

theorem PathTo.extend {root j : Nat} {obj : Obj} (h : PathTo graph root path i)
    (hobj : graph i = some obj) (hi : i ∉ path) (hj : j ∈ obj.children) :
    PathTo graph root (path ++ [i]) j where
  head := by
    have hhead := h.head
    cases path <;> simpa using hhead
  chain := by
    rw [isChain_append]
    refine ⟨h.chain, isChain_singleton j, fun x hx y hy => ?_⟩
    obtain rfl : i = x := by simpa using hx
    obtain rfl : j = y := by simpa using hy
    exact ⟨obj, hobj, hj⟩
  nodup := List.Nodup.append h.nodup (nodup_singleton i) (by simpa using hi)
  present := by
    intro k hk
    rcases mem_append.mp hk with hk | hk
    · exact h.present k hk
    · obtain rfl := mem_singleton.mp hk
      exact Option.ne_none_iff_exists'.mpr ⟨obj, hobj⟩

section Walk

variable {graph : Nat → Option Obj} {root n : Nat} (hgraph : ∀ i, graph i ≠ none → i < n)
include hgraph

theorem length_le_of_nodup {path : List Nat} (hnodup : path.Nodup)
    (hpresent : ∀ j ∈ path, graph j ≠ none) : path.length ≤ n := by
  have hsub : path ⊆ List.range n := fun j hj => mem_range.mpr (hgraph j (hpresent j hj))
  have hle := (hnodup.subperm hsub).length_le
  rwa [length_range] at hle

/-- **One call.**  With fuel for the objects that are not being parsed yet the call returns; the
entries of `used_indexes` below its level and its level are as before; the log is right; and if
there is a node, all that the object reaches is grounded. -/
theorem walkAt_returns {fuel : Nat} {path : List Nat} {i : Nat} {st : ParseState}
    (hfuel : n < path.length + fuel) (hpath : PathTo graph root path i) (ht : Tracks path st)
    (hlog : ∀ c ∈ st.calls, c.Good graph root n) :
    Returns (fun st => Tracks path st ∧ ∀ c ∈ st.calls, c.Good graph root n)
      (Grounded graph path i) (walkAt graph fuel path i st) := by
  induction fuel generalizing path i st with
  | zero =>
    have hle := length_le_of_nodup hgraph hpath.nodup hpath.present
    omega
  | succ fuel ih =>
    rw [walkAt]
    cases hobj : graph i with
    | none => exact ⟨_, _, rfl, ⟨ht, hlog⟩, fun hnone => by cases hnone⟩
    | some obj =>
      have htake := noteIndex_take ht.used i
      have hrec := recursionDetected_iff htake
      simp only [ht.level]
      by_cases hmem : i ∈ path
      · rw [if_pos (hrec.mpr hmem)]
        refine ⟨_, _, rfl, ⟨⟨rfl, ?_⟩, fun c hc => ?_⟩, fun hnone => by cases hnone⟩
        · simpa [take_take] using congrArg (List.take path.length) htake
        · rcases mem_append.mp hc with hc | hc
          · exact hlog c hc
          · obtain rfl := mem_singleton.mp hc
            exact
              { level := rfl
                used := htake
                head := hpath.head
                chain := hpath.chain
                distinct := fun hfalse => by rw [hrec.mpr hmem] at hfalse; cases hfalse
                depth := fun hfalse => by rw [hrec.mpr hmem] at hfalse; cases hfalse
                cycle := fun _ => transGen_of_isChain hpath.chain hmem }
      · have hfalse : recursionDetected (noteIndex st.usedIndexes path.length i)
            path.length = false := by
          rw [Bool.eq_false_iff]
          exact fun h => hmem (hrec.mp h)
        have hnodup : (path ++ [i]).Nodup :=
          List.Nodup.append hpath.nodup (nodup_singleton i) (by simpa using hmem)
        have hdepth : path.length + 1 ≤ n := by
          have hle := length_le_of_nodup hgraph hnodup fun j hj => by
            rcases mem_append.mp hj with hj | hj
            · exact hpath.present j hj
            · obtain rfl := mem_singleton.mp hj
              exact Option.ne_none_iff_exists'.mpr ⟨obj, hobj⟩
          simpa using hle
        rw [if_neg (by rw [hfalse]; exact Bool.false_ne_true)]
        have hcall : Call.Good graph root n
            ⟨path, i, path.length, noteIndex st.usedIndexes path.length i,
              recursionDetected (noteIndex st.usedIndexes path.length i) path.length⟩ :=
          { level := rfl
            used := htake
            head := hpath.head
            chain := hpath.chain
            distinct := fun _ => hnodup
            depth := fun _ => hdepth
            cycle := fun htrue => by rw [hfalse] at htrue; cases htrue }
        have hst : (fun st => Tracks (path ++ [i]) st ∧ ∀ c ∈ st.calls, c.Good graph root n)
            ⟨path.length + 1, noteIndex st.usedIndexes path.length i, st.calls ++
              [⟨path, i, path.length, noteIndex st.usedIndexes path.length i,
                recursionDetected (noteIndex st.usedIndexes path.length i) path.length⟩]⟩ := by
          refine ⟨⟨by simp, by simpa using htake⟩, fun c hc => ?_⟩
          rcases mem_append.mp hc with hc | hc
          · exact hlog c hc
          · obtain rfl := mem_singleton.mp hc
            exact hcall
        obtain ⟨node, st', hrun, ⟨ht', hlog'⟩, hground⟩ := walkObj_returns obj
          (S := Grounded graph (path ++ [i])) hst (fun j hj st' hst' =>
            ih (show n < (path ++ [i]).length + fuel by simp; omega)
              (hpath.extend hobj hmem hj) hst'.1 hst'.2)
        refine ⟨node, ⟨st'.level - 1, st'.usedIndexes, st'.calls⟩, ?_, ⟨⟨?_, ?_⟩, hlog'⟩,
          fun hsome => .of_children hobj hmem (hground hsome)⟩
        · rw [hrun]
          rfl
        · simp [ht'.level]
        · have hused := congrArg (List.take path.length) ht'.used
          simpa [take_take] using hused

end Walk

/-! ## Fuel -/

/-- More fuel does not change a result. -/
def Extends (f g : Nat → ParseState → Parsed) : Prop := ∀ i st x, f i st = .ok x → g i st = .ok x

theorem bind_eq_ok {α β : Type} {r : Except Stop α} {f : α → Except Stop β} {y : β}
    (h : (r >>= f) = .ok y) : ∃ x, r = .ok x ∧ f x = .ok y := by
  cases r with
  | ok x => exact ⟨x, rfl, h⟩
  | error e => cases h

variable {f g : Nat → ParseState → Parsed} {x : Option Plist × ParseState}

theorem Extends.walkArray (hfg : Extends f g) (refs : List (Option Nat)) (children : List Plist)
    (st : ParseState) (h : Bplist.walkArray f refs children st = .ok x) :
    Bplist.walkArray g refs children st = .ok x := by
  induction refs generalizing children st with
  | nil => exact h
  | cons r refs ih =>
    cases r with
    | none => exact h
    | some i =>
      obtain ⟨⟨node, st'⟩, hrun, hrest⟩ := bind_eq_ok h
      simp only [Bplist.walkArray, hfg i st _ hrun, ok_bind]
      cases node with
      | none => exact hrest
      | some val => exact ih _ _ hrest

theorem Extends.walkDict (hfg : Extends f g) (refs : List (Option (Nat × Nat)))
    (children : List Plist) (st : ParseState) (h : Bplist.walkDict f refs children st = .ok x) :
    Bplist.walkDict g refs children st = .ok x := by
  induction refs generalizing children st with
  | nil => exact h
  | cons r refs ih =>
    cases r with
    | none => exact h
    | some r =>
      obtain ⟨⟨key, st'⟩, hrun, hrest⟩ := bind_eq_ok h
      simp only [Bplist.walkDict, hfg r.1 st _ hrun, ok_bind]
      dsimp only at hrest
      cases hkey : key.bind asKey with
      | none =>
        rw [hkey] at hrest
        exact hrest
      | some key' =>
        rw [hkey] at hrest
        obtain ⟨⟨node, st''⟩, hrun', hrest'⟩ := bind_eq_ok hrest
        simp only [hfg r.2 st' _ hrun', ok_bind]
        cases node with
        | none => exact hrest'
        | some val => exact ih _ _ hrest'

theorem Extends.walkObj (hfg : Extends f g) (obj : Obj) (st : ParseState)
    (h : Bplist.walkObj f obj st = .ok x) : Bplist.walkObj g obj st = .ok x := by
  cases obj with
  | leaf node => exact h
  | array refs => exact hfg.walkArray refs _ _ h
  | dict refs => exact hfg.walkDict refs _ _ h

theorem walkAt_extends (graph : Nat → Option Obj) (fuel : Nat) (path : List Nat) :
    Extends (walkAt graph fuel path) (walkAt graph (fuel + 1) path) := by
  induction fuel generalizing path with
  | zero =>
    intro i st x h
    cases h
  | succ fuel ih =>
    intro i st x h
    rw [walkAt] at h ⊢
    cases hobj : graph i with
    | none =>
      rw [hobj] at h
      exact h
    | some obj =>
      simp only [hobj] at h ⊢
      split
      · rename_i hrec
        rw [if_pos hrec] at h
        exact h
      · rename_i hrec
        rw [if_neg hrec] at h
        obtain ⟨y, hrun, hrest⟩ := bind_eq_ok h
        rw [(ih (path ++ [i])).walkObj obj _ hrun]
        exact hrest

theorem walkAt_of_le {graph : Nat → Option Obj} {fuel fuel' : Nat} (hle : fuel ≤ fuel')
    {path : List Nat} {i : Nat} {st : ParseState} {x : Option Plist × ParseState}
    (h : walkAt graph fuel path i st = .ok x) : walkAt graph fuel' path i st = .ok x := by
  induction hle with
  | refl => exact h
  | step _ ih => exact walkAt_extends graph _ path i st x ih

/-- **The whole walk.**  It returns, with the same result for all fuel beyond the number of
objects. -/
theorem walkAt_root_returns {n : Nat} (hgraph : ∀ i, graph i ≠ none → i < n) (root : Nat) :
    ∃ result st, (∀ fuel, n < fuel → walkAt graph fuel [] root ⟨0, [], []⟩ = .ok (result, st)) ∧
      (∀ c ∈ st.calls, c.Good graph root n) ∧
      (result.isSome = true → Grounded graph [] root) := by
  have hpath : PathTo graph root [] root :=
    ⟨rfl, isChain_singleton root, nodup_nil, fun j hj => by cases hj⟩
  obtain ⟨result, st, hrun, ⟨-, hlog⟩, hground⟩ :=
    walkAt_returns hgraph (show n < ([] : List Nat).length + (n + 1) by simp) hpath
      (show Tracks [] ⟨0, [], []⟩ from ⟨rfl, rfl⟩) (fun c hc => by cases hc)
  exact ⟨result, st, fun fuel hfuel => walkAt_of_le hfuel hrun, hlog, hground⟩

/-! ## The whole buffer -/

theorem Layout.graph_lt (l : Layout) (i : Nat) (h : l.graph i ≠ none) : i < l.numObjects := by
  by_contra hge
  exact h (by rw [Layout.graph, if_pos (by omega)])

/-- **The recursion check is right.**  For every buffer the reader returns.  Wherever it goes on
to parse an object, the entries of `used_indexes` up to the current level are the distinct objects
on the way from the root, of which there are at most as many as objects; an object is reported only
if it reaches itself; and a buffer in which the root reaches such an object is rejected. -/
theorem plistFromBin_recursion (build : Build) (widen : Nat → Nat) (bytes : List UInt8)
    (hlen : bytes.length < 2 ^ 32) (base : Nat) (hbase : base < 2 ^ 63) :
    ∃ result calls,
      (∀ fuel, bytes.length < fuel →
        plistFromBin ⟨.machine, build, ⟨base, bytes⟩, widen⟩ fuel = .ok (result, calls)) ∧
      (openLayout build widen bytes = none → result = none ∧ calls = []) ∧
      ∀ l root, openLayout build widen bytes = some (l, root) →
        (∀ c ∈ calls, c.recursion = false →
          c.level = c.path.length ∧ c.used.take (c.level + 1) = c.path ++ [c.index] ∧
            (c.path ++ [c.index]).Nodup ∧ (c.path ++ [c.index]).head? = some root ∧
            List.IsChain (Refers l.graph) (c.path ++ [c.index]) ∧ c.level + 1 ≤ l.numObjects) ∧
        (∀ c ∈ calls, c.recursion = true → TransGen (Refers l.graph) c.index c.index) ∧
        ((∃ i, ReflTransGen (Refers l.graph) root i ∧ TransGen (Refers l.graph) i i) →
          result = none) := by
  have hA : Arith.machine.Wraps := .inl rfl
  cases hopen : openLayout build widen bytes with
  | none =>
    refine ⟨none, [], fun fuel _ => ?_, fun _ => ⟨rfl, rfl⟩, fun l root h => absurd h (by simp)⟩
    rw [plistFromBin_eq_walkBin hlen hA hbase, walkBin, hopen]
  | some p =>
    obtain ⟨l, root⟩ := p
    obtain ⟨hl, -, -, hbytes, -⟩ := openLayout_valid hlen hopen
    have hn := hl.numObjects_le
    rw [hbytes] at hn
    obtain ⟨result, st, hrun, hlog, hground⟩ := walkAt_root_returns l.graph_lt root
    refine ⟨result, st.calls, fun fuel hfuel => ?_, fun h => absurd h (by simp),
      fun l' root' heq => ?_⟩
    · rw [plistFromBin_eq_walkBin hlen hA hbase, walkBin, hopen]
      dsimp only
      rw [hrun fuel (by omega)]
      rfl
    · cases heq
      refine ⟨fun c hc hfalse => ?_, fun c hc => (hlog c hc).cycle, fun hcycle => ?_⟩
      · have hgood := hlog c hc
        exact ⟨hgood.level, hgood.used, hgood.distinct hfalse, hgood.head, hgood.chain,
          hgood.depth hfalse⟩
      · obtain ⟨i, hreach, hi⟩ := hcycle
        cases result with
        | none => rfl
        | some t => exact absurd hi (hground rfl i hreach).2

/-- A file whose only object is an array that holds itself. -/
def arrayOfItself : List UInt8 :=
  BPLIST_MAGIC ++ BPLIST_VERSION ++ [0xA1, 0] ++ [8] ++
    [0, 0, 0, 0, 0, 0, 1, 1] ++ Lib.beBytes 8 1 ++ Lib.beBytes 8 0 ++ Lib.beBytes 8 10

theorem plistFromBin_recursion_arrayOfItself :
    (∃ calls, ∀ fuel, 43 < fuel →
        plistFromBin ⟨.machine, .shipped, ⟨4096, arrayOfItself⟩, id⟩ fuel = .ok (none, calls)) := by
  obtain ⟨result, calls, hrun, -, -⟩ :=
    plistFromBin_recursion .shipped id arrayOfItself (by decide) 4096 (by decide)
  have hnone : result = none := by
    have h44 := hrun 44 (by decide)
    have heval : (plistFromBin ⟨.machine, .shipped, ⟨4096, arrayOfItself⟩, id⟩ 44).map (·.1) =
        .ok none := rfl
    rw [h44] at heval
    exact Except.ok.inj heval
  subst hnone
  exact ⟨calls, fun fuel hfuel => hrun fuel hfuel⟩

end IDeviceStack.Libplist.Bplist
