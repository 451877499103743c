/-
# `Libplist.Regions` — plists that share no memory

What an operation on a plist can reach: a closed region (`IDeviceStack.Cnary.Region`) that the
hash tables of its dictionaries do not leave either.  Every function of `plist.c` that is given
nodes of such a region writes to that region alone and leaves it closed; a lookup in a region that
nobody wrote to finds what it found.
-/
import IDeviceStack.Cnary.Region
import IDeviceStack.Libplist.HashIndex
import IDeviceStack.Libplist.Plist

namespace IDeviceStack.Libplist

open Cnary List Option

/-- The entries of the table are keys and values of the region. -/
def TableIn (S : Nat → Prop) (T : DictTable) : Prop :=
  ∀ i, ∀ e ∈ T.entries i, S e.key ∧ RefIn S e.value

/-- If the data is that of a dictionary with a hash table, the table keeps to the region. -/
def DataIn (S : Nat → Prop) (data : Option PlistData) : Prop :=
  ∀ d ∈ data, ∀ T, d.value = .dict (some T) → TableIn S T

/-- No pointer leads out of the region, from a node or from a hash table. -/
abbrev PlistsIn (S : Nat → Prop) (h : PHeap) : Prop := Closed S (DataIn S) h

variable {cmp : Nat → Option Bool} {v r : Ref} {es : List (HashEntry Nat Ref)} {fuel : Nat}
  {key : List UInt8}

/-- Going from `h` to `h'` wrote to the region alone, and left it closed. -/
abbrev Keeps (S : Nat → Prop) (h h' : PHeap) : Prop := Stays S (DataIn S) h h'

theorem tableIn_new (S : Nat → Prop) : TableIn S hashTableNew := fun _ _ he => (nomatch he)

section Keeps

variable {S : Nat → Prop} {h h' : PHeap} {a p : Nat}

/-! ## Making and freeing nodes -/

theorem PlistsIn.new {d : PlistData} (hc : PlistsIn S h) (htop : S h.top) (hd : DataIn S (some d)) :
    Keeps S h (plistNewNode h d).2 :=
  hc.nodeCreate htop hd

theorem PlistsIn.free_all (fuel : Nat) :
    (∀ {h h' : PHeap} {a : Nat} {i : Option Nat}, PlistsIn S h → S a →
      plistFreeNode fuel h a = some (h', i) → Keeps S h h') ∧
    (∀ {h h' : PHeap} {a : Nat}, PlistsIn S h → S a → plistFreeBody fuel h a = some h' →
      Keeps S h h') ∧
    (∀ {h h' : PHeap} {r : Ref}, PlistsIn S h → RefIn S r → plistFreeChildren fuel h r = some h' →
      Keeps S h h') := by
  induction fuel with
  | zero => exact ⟨fun _ _ h => (nomatch h), fun _ _ h => (nomatch h), fun _ _ h => (nomatch h)⟩
  | succ fuel ih =>
    obtain ⟨ihNode, ihBody, ihChildren⟩ := ih
    refine ⟨fun {h h' a i} hc ha hrun => ?_, fun {h h' a} hc ha hrun => ?_,
      fun {h h' r} hc hr hrun => ?_⟩
    · rw [plistFreeNode] at hrun
      obtain ⟨n, hn, hrun⟩ := bind_eq_some_iff.mp hrun
      obtain ⟨⟨h1, k⟩, hdet, hrun⟩ := bind_eq_some_iff.mp hrun
      obtain ⟨h2, hbody, hrun⟩ := bind_eq_some_iff.mp hrun
      cases hrun
      have s1 := hc.nodeDetach (hc a n ha hn).parent ha hdet
      exact s1.trans (ihBody s1.closed ha hbody)
    · rw [plistFreeBody] at hrun
      obtain ⟨h1, hclear, hrun⟩ := bind_eq_some_iff.mp hrun
      obtain ⟨n, hn, hrun⟩ := bind_eq_some_iff.mp hrun
      obtain ⟨h2, hchildren, hrun⟩ := bind_eq_some_iff.mp hrun
      have s1 := hc.modify ha hclear fun _ hn => { hn with data := fun _ hd => (nomatch hd) }
      have s2 := ihChildren s1.closed (s1.closed a n ha hn).beginRef hchildren
      exact (s1.trans s2).trans (s2.closed.nodeDestroy ha hrun)
    · cases r with
      | null =>
        cases hrun
        exact hc.stays
      | list q => cases hrun
      | node ch =>
        rw [plistFreeChildren] at hrun
        obtain ⟨next, hnext, hrun⟩ := bind_eq_some_iff.mp hrun
        obtain ⟨⟨h1, k⟩, hfree, hrun⟩ := bind_eq_some_iff.mp hrun
        have s1 := ihNode hc hr hfree
        exact s1.trans (ihChildren s1.closed (hc.getNext hr hnext) hrun)

theorem PlistsIn.free {i : Option Nat} (hc : PlistsIn S h) (ha : S a)
    (hrun : plistFree h a = some (h', i)) : Keeps S h h' :=
  (PlistsIn.free_all _).1 hc ha hrun

theorem PlistsIn.putBack {i : Option Nat} (hc : PlistsIn S h) (hp : S p) (ha : S a)
    (hrun : putBack h p a i = some h') : Keeps S h h' := by
  cases i with
  | none => exact hc.nodeAttach hp ha hrun
  | some i => exact hc.nodeInsert hp ha hrun

/-! ## Hash tables -/

theorem mem_chainReplace {o : Option (List (HashEntry Nat Ref))}
    (hrun : chainReplace cmp v es = some o) :
    ∀ es' ∈ o, ∀ e ∈ es', e ∈ es ∨ ∃ d ∈ es, e = ⟨d.key, v⟩ := by
  induction es generalizing o with
  | nil =>
    cases hrun
    exact nofun
  | cons d es ih =>
    rw [chainReplace] at hrun
    obtain ⟨b, -, hrun⟩ := bind_eq_some_iff.mp hrun
    cases b with
    | true =>
      cases hrun
      rintro _ ⟨⟩ e he
      rcases mem_cons.mp he with rfl | he
      · exact Or.inr ⟨d, mem_cons_self, rfl⟩
      · exact Or.inl (mem_cons_of_mem d he)
    | false =>
      obtain ⟨rest, hrest, hrun⟩ := bind_eq_some_iff.mp hrun
      cases hrun
      intro es' hes' e he
      obtain ⟨es'', hes'', rfl⟩ := map_eq_some_iff.mp hes'
      rcases mem_cons.mp he with rfl | he
      · exact Or.inl mem_cons_self
      · rcases ih hrest es'' hes'' e he with he | ⟨c, hc, rfl⟩
        · exact Or.inl (mem_cons_of_mem d he)
        · exact Or.inr ⟨c, mem_cons_of_mem d hc, rfl⟩

theorem mem_chainRemove {es' : List (HashEntry Nat Ref)} (hrun : chainRemove cmp es = some es') :
    ∀ e ∈ es', e ∈ es := by
  induction es generalizing es' with
  | nil =>
    cases hrun
    exact fun _ he => he
  | cons d es ih =>
    rw [chainRemove] at hrun
    obtain ⟨b, -, hrun⟩ := bind_eq_some_iff.mp hrun
    cases b with
    | true =>
      cases hrun
      exact fun e he => mem_cons_of_mem d he
    | false =>
      obtain ⟨rest, hrest, hrun⟩ := bind_eq_some_iff.mp hrun
      cases hrun
      exact cons_subset_cons d (ih hrest)

theorem mem_chainLookup (hrun : chainLookup cmp es = some (some v)) : ∃ e ∈ es, e.value = v := by
  induction es with
  | nil => cases hrun
  | cons d es ih =>
    rw [chainLookup] at hrun
    obtain ⟨b, -, hrun⟩ := bind_eq_some_iff.mp hrun
    cases b with
    | true =>
      cases hrun
      exact ⟨d, mem_cons_self, rfl⟩
    | false =>
      obtain ⟨e, he, hv⟩ := ih hrun
      exact ⟨e, mem_cons_of_mem d he, hv⟩

variable {T T' : DictTable}

theorem TableIn.update (hT : TableIn S T) {j : Nat} (hes : ∀ e ∈ es, S e.key ∧ RefIn S e.value)
    (hentries : T'.entries = Function.update T.entries j es) : TableIn S T' := by
  intro i e he
  rw [hentries] at he
  by_cases hi : i = j
  · subst hi
    rw [Function.update_self] at he
    exact hes e he
  · rw [Function.update_of_ne hi] at he
    exact hT i e he

theorem TableIn.insert (hT : TableIn S T) {k : Nat} (hk : S k) (hv : RefIn S v)
    (hrun : dictTableInsert h T k v = some T') : TableIn S T' := by
  rw [dictTableInsert] at hrun
  obtain ⟨data, -, hrun⟩ := bind_eq_some_iff.mp hrun
  cases data with
  | none =>
    cases hrun
    exact hT
  | some data =>
    obtain ⟨key, -, hrun⟩ := bind_eq_some_iff.mp hrun
    obtain ⟨hash, -, hrun⟩ := bind_eq_some_iff.mp hrun
    rw [hashTableInsert] at hrun
    obtain ⟨o, hreplace, hrun⟩ := bind_eq_some_iff.mp hrun
    have hmem := mem_chainReplace hreplace
    cases o with
    | some es =>
      cases hrun
      refine hT.update (fun e he => ?_) rfl
      rcases hmem es rfl e he with he | ⟨d, hd, rfl⟩
      · exact hT _ e he
      · exact ⟨(hT _ d hd).1, hv⟩
    | none =>
      cases hrun
      refine hT.update (fun e he => ?_) rfl
      rcases mem_cons.mp he with rfl | he
      · exact ⟨hk, hv⟩
      · exact hT _ e he

theorem PlistsIn.index (hc : PlistsIn S h) (hr : RefIn S r) (hT : TableIn S T)
    (hrun : indexDict h fuel r T = some T') : TableIn S T' := by
  induction fuel generalizing r T with
  | zero => cases hrun
  | succ fuel ih =>
    cases r with
    | null =>
      cases hrun
      exact hT
    | list q => cases hrun
    | node current =>
      rw [indexDict] at hrun
      obtain ⟨value, hvalue, hrun⟩ := bind_eq_some_iff.mp hrun
      obtain ⟨T₁, hins, hrun⟩ := bind_eq_some_iff.mp hrun
      obtain ⟨next, hnext, hrun⟩ := bind_eq_some_iff.mp hrun
      have hv := hc.nodeNextSibling hr hvalue
      exact ih (hc.nodeNextSibling hv hnext) (hT.insert hr hv hins) hrun

theorem PlistsIn.tableIn (hc : PlistsIn S h) (hp : S p) (hrun : dictHashtable h p = some (some T)) :
    TableIn S T := by
  rw [dictHashtable] at hrun
  obtain ⟨data, hdata, hrun⟩ := bind_eq_some_iff.mp hrun
  obtain ⟨n, hn, rfl⟩ := map_eq_some_iff.mp hdata
  have hin := (hc p n hp hn).data
  match hnd : n.data with
  | none =>
    rw [hnd] at hrun
    cases hrun
  | some ⟨.scalar s, len⟩ =>
    rw [hnd] at hrun
    cases hrun
  | some ⟨.array, len⟩ =>
    rw [hnd] at hrun
    cases hrun
  | some ⟨.dict ht, len⟩ =>
    rw [hnd] at hrun
    cases hrun
    exact hin _ hnd T rfl

theorem PlistsIn.store (hc : PlistsIn S h) (hp : S p) {ht : Option DictTable}
    (hT : ∀ T ∈ ht, TableIn S T) (hrun : setHashtable h p ht = some h') : Keeps S h h' := by
  refine hc.modify hp hrun fun n hn => { hn with data := ?_ }
  intro d hd T hdT
  obtain ⟨d, -, rfl⟩ := map_eq_some_iff.mp hd
  exact hT T (Value.dict.inj hdT)

/-! ## Lookups -/

theorem PlistsIn.scan (hc : PlistsIn S h) (hr : RefIn S r) (hrun : scanDict h key fuel r = some v) :
    RefIn S v := by
  induction fuel generalizing r with
  | zero => cases hrun
  | succ fuel ih =>
    cases r with
    | null =>
      cases hrun
      exact trivial
    | list q => cases hrun
    | node current =>
      rw [scanDict] at hrun
      obtain ⟨type, -, hrun⟩ := bind_eq_some_iff.mp hrun
      split at hrun
      · obtain ⟨⟨strval, len⟩, -, hrun⟩ := bind_eq_some_iff.mp hrun
        obtain ⟨value, hvalue, hrun⟩ := bind_eq_some_iff.mp hrun
        have hv := hc.nodeNextSibling hr hvalue
        split at hrun
        · cases hrun
          exact hv
        · obtain ⟨next, hnext, hrun⟩ := bind_eq_some_iff.mp hrun
          exact ih (hc.nodeNextSibling hv hnext) hrun
      · cases hrun

theorem PlistsIn.getItem (hc : PlistsIn S h) (hp : S p) (hrun : plistDictGetItem h p key = some v) :
    RefIn S v := by
  rw [plistDictGetItem] at hrun
  obtain ⟨type, -, hrun⟩ := bind_eq_some_iff.mp hrun
  split at hrun
  · obtain ⟨ht, htable, hrun⟩ := bind_eq_some_iff.mp hrun
    cases ht with
    | none =>
      obtain ⟨first, hfirst, hrun⟩ := bind_eq_some_iff.mp hrun
      exact hc.scan (hc.nodeFirstChild hp hfirst) hrun
    | some T =>
      obtain ⟨hash, -, hrun⟩ := bind_eq_some_iff.mp hrun
      obtain ⟨value, hvalue, hrun⟩ := bind_eq_some_iff.mp hrun
      cases hrun
      cases value with
      | none => exact trivial
      | some v =>
        obtain ⟨e, he, rfl⟩ := mem_chainLookup hvalue
        exact (hc.tableIn hp htable _ e he).2
  · cases hrun
    exact trivial

/-- The region has the cells it had, and memory has not shrunk. -/
structure SameIn (S : Nat → Prop) (h h' : PHeap) : Prop where
  cells : ∀ b, S b → h'.cells b = h.cells b
  top : h.top ≤ h'.top

theorem SameIn.nodeNextSibling (hs : SameIn S h h') (hr : RefIn S r) :
    nodeNextSibling h' r = nodeNextSibling h r := by
  cases r with
  | null => rfl
  | node a => exact congrArg (Option.map Node.next) (hs.cells a hr)
  | list p => exact congrArg (Option.map fun n => n.children.beginRef) (hs.cells p hr)

theorem SameIn.getData (hs : SameIn S h h') (ha : S a) : plistGetData h' a = plistGetData h a :=
  congrArg (Option.map Node.data) (hs.cells a ha)

theorem SameIn.getNodeType (hs : SameIn S h h') (ha : S a) :
    plistGetNodeType h' a = plistGetNodeType h a := by
  rw [plistGetNodeType, plistGetNodeType, hs.getData ha]

theorem SameIn.keyData (hs : SameIn S h h') (ha : S a) : keyData h' a = keyData h a := by
  rw [Libplist.keyData, Libplist.keyData, hs.getData ha]

theorem SameIn.chainLookup (hs : SameIn S h h') (key : List UInt8 × Nat) (hes : ∀ e ∈ es, S e.key) :
    chainLookup (compareWith h' key) es = chainLookup (compareWith h key) es := by
  induction es with
  | nil => rfl
  | cons e es ih =>
    rw [Libplist.chainLookup, Libplist.chainLookup, compareWith, compareWith,
      hs.keyData (hes e mem_cons_self)]
    congr 1
    funext b
    rw [ih fun d hd => hes d (mem_cons_of_mem e hd)]

theorem SameIn.scan (hs : SameIn S h h') (hc : PlistsIn S h) {fuel' : Nat} (hfuel : fuel ≤ fuel')
    (hr : RefIn S r) (hrun : scanDict h key fuel r = some v) :
    scanDict h' key fuel' r = some v := by
  induction fuel generalizing r fuel' with
  | zero => cases hrun
  | succ fuel ih =>
    obtain ⟨fuel', rfl⟩ : ∃ k, fuel' = k + 1 := ⟨fuel' - 1, by omega⟩
    cases r with
    | null => exact hrun
    | list q => cases hrun
    | node current =>
      rw [scanDict] at hrun ⊢
      rw [hs.getNodeType hr, hs.keyData hr, hs.nodeNextSibling hr]
      obtain ⟨type, htype, hrun⟩ := bind_eq_some_iff.mp hrun
      refine bind_eq_some_iff.mpr ⟨type, htype, ?_⟩
      split at hrun
      · rename_i hkey
        rw [if_pos hkey]
        obtain ⟨⟨strval, len⟩, hdata, hrun⟩ := bind_eq_some_iff.mp hrun
        obtain ⟨value, hvalue, hrun⟩ := bind_eq_some_iff.mp hrun
        have hv := hc.nodeNextSibling hr hvalue
        refine bind_eq_some_iff.mpr ⟨_, hdata, ?_⟩
        refine bind_eq_some_iff.mpr ⟨value, hvalue, ?_⟩
        split at hrun
        · rename_i hsame
          rw [if_pos hsame]
          exact hrun
        · rename_i hdiffer
          rw [if_neg hdiffer, hs.nodeNextSibling hv]
          obtain ⟨next, hnext, hrun⟩ := bind_eq_some_iff.mp hrun
          refine bind_eq_some_iff.mpr ⟨next, hnext, ?_⟩
          exact ih (by omega) (hc.nodeNextSibling hv hnext) hrun
      · cases hrun

/-- **Lookups in a region that nobody wrote to** find what they found. -/
theorem SameIn.getItem (hs : SameIn S h h') (hc : PlistsIn S h) (hp : S p)
    (hrun : plistDictGetItem h p key = some v) : plistDictGetItem h' p key = some v := by
  rw [plistDictGetItem] at hrun ⊢
  rw [hs.getNodeType hp]
  obtain ⟨type, htype, hrun⟩ := bind_eq_some_iff.mp hrun
  refine bind_eq_some_iff.mpr ⟨type, htype, ?_⟩
  split at hrun
  · rename_i hdict
    rw [if_pos hdict]
    have htables : dictHashtable h' p = dictHashtable h p := by
      rw [dictHashtable, dictHashtable, hs.getData hp]
    rw [htables]
    obtain ⟨ht, htable, hrun⟩ := bind_eq_some_iff.mp hrun
    refine bind_eq_some_iff.mpr ⟨ht, htable, ?_⟩
    cases ht with
    | none =>
      obtain ⟨first, hfirst, hrun⟩ := bind_eq_some_iff.mp hrun
      have hfirst' : nodeFirstChild h' p = some first := by
        rw [nodeFirstChild, hs.cells p hp]
        exact hfirst
      refine bind_eq_some_iff.mpr ⟨first, hfirst', ?_⟩
      exact hs.scan hc (Nat.succ_le_succ hs.top) (hc.nodeFirstChild hp hfirst) hrun
    | some T =>
      have hT := hc.tableIn hp htable
      have hlook : ∀ (hash : BitVec 32) (key : List UInt8 × Nat),
          hashTableLookup T hash (compareWith h' key) =
            hashTableLookup T hash (compareWith h key) := fun hash key =>
        hs.chainLookup key fun e he => (hT _ e he).1
      dsimp only at hrun ⊢
      simp only [hlook]
      exact hrun
  · rename_i hdict
    rw [if_neg hdict]
    exact hrun

theorem SameIn.chainReplace (hs : SameIn S h h') (key : List UInt8 × Nat) (v : Ref)
    (hes : ∀ e ∈ es, S e.key) :
    chainReplace (compareWith h' key) v es = chainReplace (compareWith h key) v es := by
  induction es with
  | nil => rfl
  | cons e es ih =>
    rw [Libplist.chainReplace, Libplist.chainReplace, compareWith, compareWith,
      hs.keyData (hes e mem_cons_self)]
    congr 1
    funext b
    rw [ih fun d hd => hes d (mem_cons_of_mem e hd)]

theorem SameIn.tableInsert (hs : SameIn S h h') (hT : TableIn S T) {k : Nat} (hk : S k) (v : Ref) :
    dictTableInsert h' T k v = dictTableInsert h T k v := by
  have hchain : ∀ (i : Nat) (key : List UInt8 × Nat),
      Libplist.chainReplace (compareWith h' key) v (T.entries i) =
        Libplist.chainReplace (compareWith h key) v (T.entries i) := fun i key =>
    hs.chainReplace key v fun e he => (hT i e he).1
  simp only [dictTableInsert, hs.getData hk, hs.keyData hk, hashTableInsert, hchain]

theorem SameIn.index (hs : SameIn S h h') (hc : PlistsIn S h) {fuel' : Nat} (hfuel : fuel ≤ fuel')
    (hr : RefIn S r) (hT : TableIn S T) (hrun : indexDict h fuel r T = some T') :
    indexDict h' fuel' r T = some T' := by
  induction fuel generalizing r T fuel' with
  | zero => cases hrun
  | succ fuel ih =>
    obtain ⟨fuel', rfl⟩ : ∃ k, fuel' = k + 1 := ⟨fuel' - 1, by omega⟩
    cases r with
    | null => exact hrun
    | list q => cases hrun
    | node current =>
      rw [indexDict] at hrun ⊢
      obtain ⟨value, hvalue, hrun⟩ := bind_eq_some_iff.mp hrun
      obtain ⟨T₁, hins, hrun⟩ := bind_eq_some_iff.mp hrun
      obtain ⟨next, hnext, hrun⟩ := bind_eq_some_iff.mp hrun
      have hv := hc.nodeNextSibling hr hvalue
      refine bind_eq_some_iff.mpr ⟨value, (hs.nodeNextSibling hr).trans hvalue, ?_⟩
      refine bind_eq_some_iff.mpr ⟨T₁, (hs.tableInsert hT hr value).trans hins, ?_⟩
      refine bind_eq_some_iff.mpr ⟨next, (hs.nodeNextSibling hv).trans hnext, ?_⟩
      exact ih (by omega) (hc.nodeNextSibling hv hnext) (hT.insert hr hv hins) hrun

end Keeps

/-! ## Changes -/

section Changes

variable {S : Nat → Prop} {h h' : PHeap} {p item : Nat} {key : List UInt8}

theorem dataIn_key (S : Nat → Prop) (s : List UInt8) (n : Nat) :
    DataIn S (some ⟨.scalar (.key s), n⟩) := by
  rintro _ ⟨⟩ T hT
  cases hT

theorem everywhere (h : PHeap) : PlistsIn (fun _ => True) h := by
  have href : ∀ r : Ref, RefIn (fun _ => True) r := fun r => by cases r <;> trivial
  exact fun _ n _ _ =>
    ⟨href _, href _, href _, href _, href _, fun _ _ T _ _ e _ => ⟨trivial, href e.value⟩⟩

theorem nodeAttach_top_le {a : Nat} (hrun : nodeAttach h p a = some h') : h.top ≤ h'.top :=
  ((everywhere h).nodeAttach trivial trivial hrun).top

variable {k : Nat}

theorem PlistsIn.place (hc : PlistsIn S h) (hnew : h.top < h'.top → S h.top) (hp : S p)
    (hitem : S item) (hrun : dictPlace h p key item = some (h', k)) : Keeps S h h' ∧ S k := by
  rw [dictPlace] at hrun
  obtain ⟨old, hold, hrun⟩ := bind_eq_some_iff.mp hrun
  have hin := hc.getItem hp hold
  cases old with
  | node oldItem =>
    obtain ⟨⟨h1, idx⟩, hfree, hrun⟩ := bind_eq_some_iff.mp hrun
    obtain ⟨h2, hput, hrun⟩ := bind_eq_some_iff.mp hrun
    obtain ⟨prev, hprev, hrun⟩ := bind_eq_some_iff.mp hrun
    have s1 := hc.free hin hfree
    have s2 := PlistsIn.putBack s1.closed hp hitem hput
    have hk := s2.closed.nodePrevSibling (r := .node item) hitem hprev
    cases prev with
    | node k =>
      cases hrun
      exact ⟨s1.trans s2, hk⟩
    | null => cases hrun
    | list q => cases hrun
  | null =>
    obtain ⟨h2, hatt2, hrun⟩ := bind_eq_some_iff.mp hrun
    obtain ⟨h3, hatt3, hrun⟩ := bind_eq_some_iff.mp hrun
    cases hrun
    have hk : S h.top := by
      refine hnew (Nat.lt_of_lt_of_le (Nat.lt_succ_self _) ?_)
      exact (nodeAttach_top_le hatt2).trans (nodeAttach_top_le hatt3)
    have s1 := hc.new hk (dataIn_key S (cstr key) (strlen key))
    have s2 := s1.closed.nodeAttach hp hk hatt2
    exact ⟨(s1.trans s2).trans (s2.closed.nodeAttach hp hitem hatt3), hk⟩
  | list q => cases hrun

theorem PlistsIn.follow (hc : PlistsIn S h) (hp : S p) (hk : S k) (hitem : S item)
    (hrun : dictIndex h p k item = some h') : Keeps S h h' := by
  rw [dictIndex] at hrun
  obtain ⟨ht, htable, hrun⟩ := bind_eq_some_iff.mp hrun
  cases ht with
  | some T =>
    obtain ⟨T', hins, hrun⟩ := bind_eq_some_iff.mp hrun
    have hT' := (hc.tableIn hp htable).insert hk (v := .node item) hitem hins
    refine hc.store hp ?_ hrun
    rintro _ ⟨⟩
    exact hT'
  | none =>
    obtain ⟨n, -, hrun⟩ := bind_eq_some_iff.mp hrun
    split at hrun
    · obtain ⟨first, hfirst, hrun⟩ := bind_eq_some_iff.mp hrun
      obtain ⟨T', hindex, hrun⟩ := bind_eq_some_iff.mp hrun
      have hT' := hc.index (hc.nodeFirstChild hp hfirst) (tableIn_new S) hindex
      refine hc.store hp ?_ hrun
      rintro _ ⟨⟩
      exact hT'
    · cases hrun
      exact hc.stays

theorem dictIndex_top_le (hrun : dictIndex h p k item = some h') : h.top ≤ h'.top :=
  (PlistsIn.follow (everywhere h) trivial trivial trivial hrun).top

theorem PlistsIn.setItem (hc : PlistsIn S h) (hnew : h.top < h'.top → S h.top) (hp : S p)
    (hitem : S item) (hrun : plistDictSetItem h p key item = some h') : Keeps S h h' := by
  rw [plistDictSetItem] at hrun
  obtain ⟨type, -, hrun⟩ := bind_eq_some_iff.mp hrun
  split at hrun
  · obtain ⟨⟨h1, k⟩, hplace, hrun⟩ := bind_eq_some_iff.mp hrun
    have htop := dictIndex_top_le hrun
    obtain ⟨s1, hk⟩ := hc.place (fun hlt => hnew (Nat.lt_of_lt_of_le hlt htop)) hp hitem hplace
    exact s1.trans (PlistsIn.follow s1.closed hp hk hitem hrun)
  · cases hrun
    exact hc.stays

theorem PlistsIn.unindex (hc : PlistsIn S h) (hp : S p) (hrun : dictUnindex h p k = some h') :
    Keeps S h h' := by
  rw [dictUnindex] at hrun
  obtain ⟨ht, htable, hrun⟩ := bind_eq_some_iff.mp hrun
  cases ht with
  | none =>
    cases hrun
    exact hc.stays
  | some T =>
    obtain ⟨data, -, hrun⟩ := bind_eq_some_iff.mp hrun
    cases data with
    | none =>
      cases hrun
      exact hc.stays
    | some data =>
      obtain ⟨name, -, hrun⟩ := bind_eq_some_iff.mp hrun
      obtain ⟨hash, -, hrun⟩ := bind_eq_some_iff.mp hrun
      obtain ⟨T', hremove, hrun⟩ := bind_eq_some_iff.mp hrun
      rw [hashTableRemove] at hremove
      obtain ⟨es, hchain, hremove⟩ := bind_eq_some_iff.mp hremove
      cases hremove
      have hT := hc.tableIn hp htable
      refine hc.store hp ?_ hrun
      rintro _ ⟨⟩
      exact hT.update (fun e he => hT _ e (mem_chainRemove hchain e he)) rfl

theorem PlistsIn.removeItem (hc : PlistsIn S h) (hp : S p)
    (hrun : plistDictRemoveItem h p key = some h') : Keeps S h h' := by
  rw [plistDictRemoveItem] at hrun
  obtain ⟨type, -, hrun⟩ := bind_eq_some_iff.mp hrun
  split at hrun
  · obtain ⟨old, hold, hrun⟩ := bind_eq_some_iff.mp hrun
    have hin := hc.getItem hp hold
    cases old with
    | node oldItem =>
      obtain ⟨prev, hprev, hrun⟩ := bind_eq_some_iff.mp hrun
      have hk := hc.nodePrevSibling (r := .node oldItem) hin hprev
      cases prev with
      | node k =>
        obtain ⟨h1, hun, hrun⟩ := bind_eq_some_iff.mp hrun
        obtain ⟨⟨h2, i⟩, hfree2, hrun⟩ := bind_eq_some_iff.mp hrun
        obtain ⟨⟨h3, j⟩, hfree3, hrun⟩ := bind_eq_some_iff.mp hrun
        cases hrun
        have s1 := hc.unindex hp hun
        have s2 := PlistsIn.free s1.closed hk hfree2
        exact (s1.trans s2).trans (PlistsIn.free s2.closed hin hfree3)
      | null => cases hrun
      | list q => cases hrun
    | null =>
      cases hrun
      exact hc.stays
    | list q => cases hrun
  · cases hrun
    exact hc.stays

end Changes

end IDeviceStack.Libplist
