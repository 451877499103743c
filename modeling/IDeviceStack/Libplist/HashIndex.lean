/-
# `Libplist.HashIndex` — a hash table is a finite map

The table compares keys through the data they point to.  `name` is what a key
stands for; keys with equal names are the same key to the table.  `Indexes` says
that a table holds exactly the pairs of a list, each in the bucket of its name's
hash, and no name twice.  The order inside a bucket and the lossy choice of the
bucket then drop out: lookup, insertion and removal are those of the list.
-/
import IDeviceStack.Libplist.Hashtable
import Mathlib.Data.List.Nodup

namespace IDeviceStack.Libplist

open Function List Option

variable {κ ν N : Type} [DecidableEq N] {name : κ → N} {x : N} {cmp : κ → Option Bool}

/-! ## Chains -/

/-- `cmp` compares the keys of the chain with the name `x`. -/
def ComparesTo (name : κ → N) (x : N) (cmp : κ → Option Bool) (es : List (HashEntry κ ν)) : Prop :=
  ∀ e ∈ es, cmp e.key = some (decide (name e.key = x))

variable {e : HashEntry κ ν} {es : List (HashEntry κ ν)}

theorem ComparesTo.tail (hcmp : ComparesTo name x cmp (e :: es)) : ComparesTo name x cmp es :=
  fun e' he' => hcmp e' (mem_cons_of_mem e he')

theorem chainLookup_eq (hcmp : ComparesTo name x cmp es) :
    chainLookup cmp es = some ((es.find? fun e => name e.key = x).map HashEntry.value) := by
  induction es with
  | nil => rfl
  | cons e es ih =>
    have he := hcmp e mem_cons_self
    by_cases hx : name e.key = x
    · simp [chainLookup, he, hx]
    · simp [chainLookup, he, hx, ih hcmp.tail]

theorem chainReplace_absent (value : ν) (hcmp : ComparesTo name x cmp es)
    (habs : ∀ e ∈ es, name e.key ≠ x) : chainReplace cmp value es = some none := by
  induction es with
  | nil => rfl
  | cons e es ih =>
    have he := hcmp e mem_cons_self
    have hne := habs e mem_cons_self
    simp [chainReplace, he, hne, ih hcmp.tail fun e' he' => habs e' (mem_cons_of_mem e he')]

/-- The chain with the value under `x` replaced. -/
def withValue (name : κ → N) (x : N) (value : ν) (e : HashEntry κ ν) : HashEntry κ ν :=
  if name e.key = x then { e with value := value } else e

@[simp] theorem withValue_key (value : ν) (e : HashEntry κ ν) :
    (withValue name x value e).key = e.key := by
  unfold withValue
  split <;> rfl

theorem chainReplace_present (value : ν) (hcmp : ComparesTo name x cmp es)
    (hnd : (es.map fun e => name e.key).Nodup) (hpres : ∃ e ∈ es, name e.key = x) :
    chainReplace cmp value es = some (some (es.map (withValue name x value))) := by
  induction es with
  | nil =>
    obtain ⟨e, he, -⟩ := hpres
    cases he
  | cons e es ih =>
    have he := hcmp e mem_cons_self
    rw [map_cons, nodup_cons] at hnd
    by_cases hx : name e.key = x
    · have hrest : es.map (withValue name x value) = es := by
        refine (map_congr_left fun e' he' => ?_).trans (map_id es)
        have hne : name e'.key ≠ x := fun h =>
          hnd.1 ((hx.trans h.symm) ▸ mem_map_of_mem (f := fun e => name e.key) he')
        simp [withValue, hne]
      rw [map_cons, hrest]
      simp [chainReplace, he, hx, withValue]
    · obtain ⟨e', he', hx'⟩ := hpres
      have hmem : e' ∈ es := by
        rcases mem_cons.mp he' with rfl | hmem
        · exact absurd hx' hx
        · exact hmem
      simp [chainReplace, he, hx, withValue, ih hcmp.tail hnd.2 ⟨e', hmem, hx'⟩]

theorem chainRemove_eq (hcmp : ComparesTo name x cmp es)
    (hnd : (es.map fun e => name e.key).Nodup) :
    chainRemove cmp es = some (es.filter fun e => name e.key ≠ x) := by
  induction es with
  | nil => rfl
  | cons e es ih =>
    have he := hcmp e mem_cons_self
    rw [map_cons, nodup_cons] at hnd
    by_cases hx : name e.key = x
    · have hrest : es.filter (fun e => name e.key ≠ x) = es := by
        refine filter_eq_self.mpr fun e' he' => ?_
        have hne : name e'.key ≠ name e.key := fun h =>
          hnd.1 (h ▸ mem_map_of_mem (f := fun e => name e.key) he')
        simpa [hx] using hne
      rw [filter_cons_of_neg (by simpa using hx), hrest]
      simp [chainRemove, he, hx]
    · rw [filter_cons_of_pos (by simpa using hx)]
      simp [chainRemove, he, hx, ih hcmp.tail hnd.2]

/-! ## Tables -/

/-- The table holds exactly `pairs`, each in its bucket. -/
structure Indexes (hash : N → BitVec 32) (name : κ → N) (ht : HashTable κ ν)
    (pairs : List (κ × ν)) : Prop where
  mem : ∀ i e, e ∈ ht.entries i ↔ (e.key, e.value) ∈ pairs ∧ bucket (hash (name e.key)) = i
  nodup : ∀ i, ((ht.entries i).map fun e => name e.key).Nodup

namespace Indexes

variable {hash : N → BitVec 32} {ht : HashTable κ ν} {pairs : List (κ × ν)}

omit [DecidableEq N] in
theorem new : Indexes hash name (hashTableNew : HashTable κ ν) [] :=
  ⟨by simp [hashTableNew], by simp [hashTableNew]⟩

theorem comparesTo (hi : Indexes hash name ht pairs)
    (hcmp : ∀ q ∈ pairs, cmp q.1 = some (decide (name q.1 = x))) (i : Nat) :
    ComparesTo name x cmp (ht.entries i) :=
  fun e he => hcmp _ ((hi.mem i e).mp he).1

omit [DecidableEq N] in
theorem congr {name' : κ → N} (hi : Indexes hash name ht pairs)
    (hname : ∀ q ∈ pairs, name' q.1 = name q.1) : Indexes hash name' ht pairs := by
  have hkey : ∀ i, ∀ e ∈ ht.entries i, name' e.key = name e.key :=
    fun i e he => hname _ ((hi.mem i e).mp he).1
  refine ⟨fun i e => ⟨fun he => ?_, fun he => ?_⟩, fun i => ?_⟩
  · rw [hkey i e he]
    exact (hi.mem i e).mp he
  · rw [hname _ he.1] at he
    exact (hi.mem i e).mpr he
  · rw [map_congr_left (hkey i)]
    exact hi.nodup i

omit [DecidableEq N] in
theorem of_mem_iff {pairs' : List (κ × ν)} (hi : Indexes hash name ht pairs)
    (hmem : ∀ q, q ∈ pairs' ↔ q ∈ pairs) : Indexes hash name ht pairs' :=
  ⟨fun i e => by rw [hmem]; exact hi.mem i e, hi.nodup⟩

theorem lookup (hi : Indexes hash name ht pairs) (hnd : (pairs.map fun q => name q.1).Nodup)
    (hcmp : ∀ q ∈ pairs, cmp q.1 = some (decide (name q.1 = x))) :
    hashTableLookup ht (hash x) cmp = some ((pairs.find? fun q => name q.1 = x).map Prod.snd) := by
  rw [hashTableLookup, chainLookup_eq (hi.comparesTo hcmp _)]
  congr 1
  cases hf : pairs.find? (fun q => name q.1 = x) with
  | none =>
    have hnone : (ht.entries (bucket (hash x))).find? (fun e => name e.key = x) = none := by
      refine List.find?_eq_none.mpr fun e he => ?_
      have := List.find?_eq_none.mp hf _ ((hi.mem _ e).mp he).1
      simpa using this
    rw [hnone]
    rfl
  | some q =>
    have hq : name q.1 = x := by simpa using List.find?_some hf
    have hqmem := mem_of_find?_eq_some hf
    have hentry : (⟨q.1, q.2⟩ : HashEntry κ ν) ∈ ht.entries (bucket (hash x)) :=
      (hi.mem _ _).mpr ⟨hqmem, by rw [hq]⟩
    cases hf' : (ht.entries (bucket (hash x))).find? (fun e => name e.key = x) with
    | none =>
      have := List.find?_eq_none.mp hf' _ hentry
      simp [hq] at this
    | some e =>
      have he : name e.key = x := by simpa using List.find?_some hf'
      have hemem := ((hi.mem _ e).mp (mem_of_find?_eq_some hf')).1
      have heq : (e.key, e.value) = q :=
        inj_on_of_nodup_map hnd hemem hqmem (he.trans hq.symm)
      simp [← heq]

theorem insert_absent (hi : Indexes hash name ht pairs) {key : κ} (value : ν)
    (hcmp : ∀ q ∈ pairs, cmp q.1 = some (decide (name q.1 = name key)))
    (habs : ∀ q ∈ pairs, name q.1 ≠ name key) :
    ∃ ht', hashTableInsert ht (hash (name key)) cmp key value = some ht' ∧
      Indexes hash name ht' ((key, value) :: pairs) := by
  have hchain := chainReplace_absent value (hi.comparesTo hcmp (bucket (hash (name key))))
    fun e he => habs _ ((hi.mem _ e).mp he).1
  refine ⟨_, by simp only [hashTableInsert, hchain, bind_eq_bind, bind_some]; rfl,
    fun i e => ?_, fun i => ?_⟩
  · by_cases hib : i = bucket (hash (name key))
    · subst hib
      simp only [update_self, mem_cons, hi.mem, Prod.mk.injEq]
      constructor
      · rintro (rfl | he)
        · exact ⟨.inl ⟨rfl, rfl⟩, rfl⟩
        · exact ⟨.inr he.1, he.2⟩
      · rintro ⟨⟨hk, hv⟩ | he, hb⟩
        · left
          cases e
          simp_all
        · exact .inr ⟨he, hb⟩
    · simp only [update_of_ne hib, hi.mem, mem_cons, Prod.mk.injEq]
      constructor
      · exact fun he => ⟨.inr he.1, he.2⟩
      · rintro ⟨⟨hk, -⟩ | he, hb⟩
        · rw [hk] at hb
          exact absurd hb.symm hib
        · exact ⟨he, hb⟩
  · by_cases hib : i = bucket (hash (name key))
    · subst hib
      simp only [update_self, map_cons, nodup_cons]
      refine ⟨fun hmem => ?_, hi.nodup _⟩
      obtain ⟨e, he, hname⟩ := mem_map.mp hmem
      exact habs _ ((hi.mem _ e).mp he).1 hname
    · simp only [update_of_ne hib]
      exact hi.nodup i

theorem insert_present (hi : Indexes hash name ht pairs) {key : κ} (value : ν)
    (hcmp : ∀ q ∈ pairs, cmp q.1 = some (decide (name q.1 = name key)))
    (hpres : ∃ q ∈ pairs, name q.1 = name key) :
    ∃ ht', hashTableInsert ht (hash (name key)) cmp key value = some ht' ∧
      Indexes hash name ht'
        (pairs.map fun q => if name q.1 = name key then (q.1, value) else q) := by
  obtain ⟨q, hq, hqname⟩ := hpres
  have hchain := chainReplace_present value
    (hi.comparesTo hcmp (bucket (hash (name key)))) (hi.nodup _)
    ⟨⟨q.1, q.2⟩, (hi.mem _ _).mpr ⟨hq, by rw [hqname]⟩, hqname⟩
  refine ⟨_, by simp only [hashTableInsert, hchain, bind_eq_bind, bind_some]; rfl,
    fun i e => ?_, fun i => ?_⟩
  · -- an entry of the new table is an old entry with its value replaced if it has the name
    have hpair : (e.key, e.value) ∈ pairs.map (fun q => if name q.1 = name key then (q.1, value) else q) ↔
        ∃ v, (e.key, v) ∈ pairs ∧ e.value = if name e.key = name key then value else v := by
      constructor
      · intro he
        obtain ⟨q, hq, heq⟩ := mem_map.mp he
        by_cases hn : name q.1 = name key
        · rw [if_pos hn] at heq
          simp only [Prod.mk.injEq] at heq
          exact ⟨q.2, heq.1 ▸ hq, by rw [← heq.1, if_pos hn, ← heq.2]⟩
        · rw [if_neg hn] at heq
          subst heq
          exact ⟨e.value, hq, by rw [if_neg hn]⟩
      · rintro ⟨v, hv, heq⟩
        refine mem_map.mpr ⟨(e.key, v), hv, ?_⟩
        by_cases hn : name e.key = name key
        · simp [hn, heq]
        · simp [hn, heq]
    rw [hpair]
    by_cases hib : i = bucket (hash (name key))
    · subst hib
      simp only [update_self, List.mem_map]
      constructor
      · rintro ⟨e0, he0, rfl⟩
        obtain ⟨hmem, hb⟩ := (hi.mem _ e0).mp he0
        rw [withValue_key]
        refine ⟨⟨e0.value, hmem, ?_⟩, hb⟩
        unfold withValue
        split <;> rfl
      · rintro ⟨⟨v, hv, heq⟩, hb⟩
        refine ⟨⟨e.key, v⟩, (hi.mem _ _).mpr ⟨hv, hb⟩, ?_⟩
        cases e
        unfold withValue
        split <;> simp_all
    · simp only [update_of_ne hib, hi.mem]
      constructor
      · rintro ⟨hmem, hb⟩
        refine ⟨⟨e.value, hmem, ?_⟩, hb⟩
        rw [if_neg]
        intro hn
        rw [hn] at hb
        exact hib hb.symm
      · rintro ⟨⟨v, hv, heq⟩, hb⟩
        rw [if_neg (fun hn => hib (by rw [← hb, hn]))] at heq
        exact ⟨heq ▸ hv, hb⟩
  · by_cases hib : i = bucket (hash (name key))
    · subst hib
      simp only [Function.update_self, List.map_map, Function.comp_def, withValue_key]
      exact hi.nodup _
    · simp only [Function.update_of_ne hib]
      exact hi.nodup i

theorem remove (hi : Indexes hash name ht pairs)
    (hcmp : ∀ q ∈ pairs, cmp q.1 = some (decide (name q.1 = x))) :
    ∃ ht', hashTableRemove ht (hash x) cmp = some ht' ∧
      Indexes hash name ht' (pairs.filter fun q => name q.1 ≠ x) := by
  have hchain := chainRemove_eq (hi.comparesTo hcmp (bucket (hash x))) (hi.nodup _)
  refine ⟨_, by simp only [hashTableRemove, hchain, bind_eq_bind, bind_some]; rfl,
    fun i e => ?_, fun i => ?_⟩
  · by_cases hib : i = bucket (hash x)
    · subst hib
      simp only [update_self, mem_filter, hi.mem, decide_not]
      tauto
    · simp only [update_of_ne hib, hi.mem, mem_filter]
      refine ⟨fun he => ⟨⟨he.1, ?_⟩, he.2⟩, fun he => ⟨he.1.1, he.2⟩⟩
      have hne : name e.key ≠ x := fun hn => hib (by rw [← he.2, hn])
      simpa using hne
  · by_cases hib : i = bucket (hash x)
    · subst hib
      simp only [update_self]
      exact (hi.nodup _).sublist (filter_sublist.map _)
    · simp only [update_of_ne hib]
      exact hi.nodup i

end Indexes

/-! ## One insertion

Without names: what an insertion does to the other lookups, whatever the keys compare to. -/

/-- The chain of the key has a new entry at its head, or the first entry that compares equal has
the new value. -/
def Enters (cmp : κ → Option Bool) (key : κ) (value : ν) (es es' : List (HashEntry κ ν)) : Prop :=
  ((∀ e ∈ es, cmp e.key = some false) ∧ es' = ⟨key, value⟩ :: es) ∨
    ∃ l e r, es = l ++ e :: r ∧ (∀ d ∈ l, cmp d.key = some false) ∧ cmp e.key = some true ∧
      es' = l ++ ⟨e.key, value⟩ :: r

theorem chainReplace_cases (value : ν) {es : List (HashEntry κ ν)}
    (hsome : ∀ e ∈ es, (cmp e.key).isSome) :
    (chainReplace cmp value es = some none ∧ ∀ e ∈ es, cmp e.key = some false) ∨
      ∃ l e r, es = l ++ e :: r ∧ (∀ d ∈ l, cmp d.key = some false) ∧ cmp e.key = some true ∧
        chainReplace cmp value es = some (some (l ++ ⟨e.key, value⟩ :: r)) := by
  induction es with
  | nil => exact Or.inl ⟨rfl, nofun⟩
  | cons e es ih =>
    obtain ⟨b, hb⟩ := isSome_iff_exists.mp (hsome e mem_cons_self)
    have htail := ih fun d hd => hsome d (mem_cons_of_mem e hd)
    cases b with
    | true =>
      refine Or.inr ⟨[], e, es, rfl, nofun, hb, ?_⟩
      simp [chainReplace, hb]
    | false =>
      rcases htail with ⟨hrun, hnone⟩ | ⟨l, d, r, rfl, hl, hd, hrun⟩
      · refine Or.inl ⟨by simp [chainReplace, hb, hrun], fun d hd => ?_⟩
        rcases mem_cons.mp hd with rfl | hd
        · exact hb
        · exact hnone d hd
      · refine Or.inr ⟨e :: l, d, r, rfl, fun c hc => ?_, hd, by simp [chainReplace, hb, hrun]⟩
        rcases mem_cons.mp hc with rfl | hc
        · exact hb
        · exact hl c hc

theorem hashTableInsert_enters (ht : HashTable κ ν) (hash : BitVec 32) (key : κ) (value : ν)
    (hsome : ∀ e ∈ ht.entries (bucket hash), (cmp e.key).isSome) :
    ∃ ht', hashTableInsert ht hash cmp key value = some ht' ∧
      (∀ i, i ≠ bucket hash → ht'.entries i = ht.entries i) ∧
      Enters cmp key value (ht.entries (bucket hash)) (ht'.entries (bucket hash)) := by
  rcases chainReplace_cases value hsome with ⟨hrun, hnone⟩ | ⟨l, e, r, heq, hl, he, hrun⟩
  · refine ⟨_, by simp only [hashTableInsert, hrun, bind_eq_bind, bind_some]; rfl,
      fun i hi => update_of_ne hi .., Or.inl ⟨hnone, update_self ..⟩⟩
  · refine ⟨_, by simp only [hashTableInsert, hrun, bind_eq_bind, bind_some]; rfl,
      fun i hi => update_of_ne hi .., Or.inr ⟨l, e, r, heq, hl, he, ?_⟩⟩
    exact update_self ..

theorem chainLookup_append {l : List (HashEntry κ ν)} (hl : ∀ e ∈ l, cmp e.key = some false)
    (es : List (HashEntry κ ν)) : chainLookup cmp (l ++ es) = chainLookup cmp es := by
  induction l with
  | nil => rfl
  | cons e l ih =>
    have he := hl e mem_cons_self
    rw [cons_append, chainLookup, he]
    exact ih fun d hd => hl d (mem_cons_of_mem e hd)

theorem chainLookup_cons_true (he : cmp e.key = some true) (es : List (HashEntry κ ν)) :
    chainLookup cmp (e :: es) = some (some e.value) := by
  rw [chainLookup, he]
  rfl

theorem chainLookup_cons_false (he : cmp e.key = some false) (es : List (HashEntry κ ν)) :
    chainLookup cmp (e :: es) = chainLookup cmp es := by
  rw [chainLookup, he]
  rfl

section Enters

variable {cmp' : κ → Option Bool} {key : κ} {value : ν} {es es' : List (HashEntry κ ν)}

theorem Enters.keys (h : Enters cmp key value es es') :
    ∀ e ∈ es', e.key = key ∨ ∃ d ∈ es, d.key = e.key := by
  intro e he
  rcases h with ⟨-, rfl⟩ | ⟨l, d, r, rfl, -, -, rfl⟩
  · rcases mem_cons.mp he with rfl | he
    · exact Or.inl rfl
    · exact Or.inr ⟨e, he, rfl⟩
  · refine Or.inr ?_
    simp only [mem_append, mem_cons] at he ⊢
    rcases he with he | rfl | he
    · exact ⟨e, Or.inl he, rfl⟩
    · exact ⟨d, Or.inr (Or.inl rfl), rfl⟩
    · exact ⟨e, Or.inr (Or.inr he), rfl⟩

theorem Enters.values (h : Enters cmp key value es es') :
    ∀ e ∈ es', e.value = value ∨ ∃ d ∈ es, d.value = e.value := by
  intro e he
  rcases h with ⟨-, rfl⟩ | ⟨l, d, r, rfl, -, -, rfl⟩
  · rcases mem_cons.mp he with rfl | he
    · exact Or.inl rfl
    · exact Or.inr ⟨e, he, rfl⟩
  · simp only [mem_append, mem_cons] at he ⊢
    rcases he with he | rfl | he
    · exact Or.inr ⟨e, Or.inl he, rfl⟩
    · exact Or.inl rfl
    · exact Or.inr ⟨e, Or.inr (Or.inr he), rfl⟩

theorem Enters.lookup_same (h : Enters cmp key value es es') (hkey : cmp' key = some true)
    (hsame : ∀ e ∈ es, cmp' e.key = cmp e.key) : chainLookup cmp' es' = some (some value) := by
  rcases h with ⟨-, rfl⟩ | ⟨l, e, r, rfl, hl, he, rfl⟩
  · exact chainLookup_cons_true hkey es
  · rw [chainLookup_append fun d hd => (hsame d (by simp [hd])).trans (hl d hd)]
    exact chainLookup_cons_true (e := ⟨e.key, value⟩) ((hsame e (by simp)).trans he) r

theorem Enters.lookup_other (h : Enters cmp key value es es') (hkey : cmp' key = some false)
    (hsome : ∀ e ∈ es, (cmp' e.key).isSome)
    (hother : ∀ e ∈ es, cmp e.key = some true → cmp' e.key = some false) :
    chainLookup cmp' es' = chainLookup cmp' es := by
  rcases h with ⟨-, rfl⟩ | ⟨l, e, r, rfl, -, he, rfl⟩
  · exact chainLookup_cons_false hkey es
  · have hfalse := hother e (by simp) he
    clear hsome hother
    induction l with
    | nil =>
      rw [nil_append, nil_append, chainLookup_cons_false hfalse]
      exact chainLookup_cons_false (e := ⟨e.key, value⟩) hfalse r
    | cons d l ih =>
      rw [cons_append, cons_append, chainLookup, chainLookup, ih]

end Enters

end IDeviceStack.Libplist
