/-
# `WebkitProxy.HashTable` — the proxy's tables

`hash_table.c`: three buckets, each a chain of entries.  A lookup moves the entry
it finds to the front of its chain, so that reading changes the table.

* A `void *` is an `Int`, and `NULL` is 0.  The strings that keys point to do not
  change while the table is in use.
* `malloc` gives an address that no entry has.  A link to freed memory is not
  followed: an operation that would do so has no result here.

**Proved here.**  `ht_refines_map`.
-/
import IDeviceStack.Lib.Chain
import Mathlib.Algebra.Order.Ring.Int

namespace IDeviceStack.WebkitProxy

open Lib.Sll Function List

inductive HtKeyType
  | intKeys
  | stringKeys

/-- The kind of a table's keys; the bits of a pointer; the strings in memory; a `char` as an
`int`. -/
structure HtKeys where
  type : HtKeyType
  bits : Nat
  str : Int → List UInt8
  char : UInt8 → BitVec 32

/-- `struct ht_entry_struct`, but for `next`. -/
structure HtEntry where
  hc : Int
  key : Int
  value : Int

/-- `struct ht_struct`, and the entries in memory. -/
structure Ht where
  entries : Nat → Option (HtEntry × Option Nat)
  buckets : Nat → Option Nat
  numKeys : Nat

def numBuckets : Nat := 3

def htNew : Ht := ⟨fun _ => none, fun _ => none, 0⟩

namespace HtKeys

variable (keys : HtKeys)

/-- `on_strhash`. -/
def strhash (key : Int) : Int :=
  if key = 0 then 0
  else
    let hc := (keys.str key).foldl (fun (hc : BitVec 32) ch => ((hc <<< 5) + hc) ^^^ keys.char ch) 0
    hc.toInt

/-- `on_strcmp` returns 0. -/
def strcmp (key1 key2 : Int) : Bool :=
  if key1 = key2 ∨ key1 = 0 ∨ key2 = 0 then key1 == key2 else keys.str key1 == keys.str key2

/-- `on_hash`, or the key itself. -/
def hash (key : Int) : Int :=
  match keys.type with
  | .intKeys => key
  | .stringKeys => keys.strhash key

/-- The keys are equal: by `on_cmp`, or by `==`. -/
def equal (key1 key2 : Int) : Bool :=
  match keys.type with
  | .intKeys => key1 == key2
  | .stringKeys => keys.strcmp key1 key2

/-- `hc % self->num_buckets`; the operator takes `hc` for a `size_t`. -/
def bucketOf (hc : Int) : Nat := (hc % 2 ^ keys.bits).toNat % numBuckets

end HtKeys

variable (keys : HtKeys)

/-- `ht_find`: `prev` and `curr`. -/
def htFind (t : Ht) (key : Int) : Option (Option Nat × Option Nat) :=
  walk (fun e => e.hc == keys.hash key && keys.equal e.key key) t.entries t.numKeys none
    (t.buckets (keys.bucketOf (keys.hash key)))

/-- `if (prev) prev->next = next; else *head = next;`. -/
def Ht.relink (t : Ht) (head : Nat) (prev : Option Nat) (next : Option Nat) : Ht :=
  match prev with
  | some a => { t with entries := setNext t.entries a next }
  | none => { t with buckets := update t.buckets head next }

/-- The entry is taken out of its chain and freed. -/
def Ht.drop (t : Ht) (head : Nat) (prev : Option Nat) (curr : Nat) (next : Option Nat) : Ht :=
  let t := t.relink head prev next
  { t with entries := update t.entries curr none, numKeys := t.numKeys - 1 }

/-- `ht_get`, with the entry it reads. -/
def htGet (t : Ht) (key : Int) : Option (Option HtEntry × Ht) :=
  let head := keys.bucketOf (keys.hash key)
  match htFind keys t key with
  | none => none
  | some (_, none) => some (none, t)
  | some (prev, some curr) =>
    match t.entries curr, prev with
    | none, _ => none
    | some (e, _), none => some (some e, t)
    | some (e, next), some a =>
      let entries := setNext (setNext t.entries a next) curr (t.buckets head)
      some (some e, { t with entries, buckets := update t.buckets head (some curr) })

def htGetKey (t : Ht) (key : Int) : Option (Int × Ht) :=
  (htGet keys t key).map fun r => (r.1.elim 0 HtEntry.key, r.2)

def htGetValue (t : Ht) (key : Int) : Option (Int × Ht) :=
  (htGet keys t key).map fun r => (r.1.elim 0 HtEntry.value, r.2)

def htRemove (t : Ht) (key : Int) : Option (Int × Ht) :=
  match htFind keys t key with
  | none => none
  | some (_, none) => some (0, t)
  | some (prev, some curr) =>
    match t.entries curr with
    | none => none
    | some (e, next) => some (e.value, t.drop (keys.bucketOf (keys.hash key)) prev curr next)

/-- `ht_put`; `addr` is what `malloc` returns. -/
def htPut (t : Ht) (key value : Int) (addr : Nat) : Option (Int × Ht) :=
  let head := keys.bucketOf (keys.hash key)
  match htFind keys t key with
  | none => none
  | some (_, none) =>
    if value = 0 then some (0, t)
    else
      let node := (⟨keys.hash key, key, value⟩, t.buckets head)
      some (0, ⟨update t.entries addr (some node),
        update t.buckets head (some addr), t.numKeys + 1⟩)
  | some (prev, some curr) =>
    match t.entries curr with
    | none => none
    | some (e, next) =>
      if value = 0 then some (e.value, t.drop head prev curr next)
      else
        let node := ({ e with value }, next)
        some (e.value, { t with entries := update t.entries curr (some node) })

/-- The inner loop of `ht_clear`. -/
def htClearChain : Nat → Option Nat → Ht → Option Ht
  | _, none, t => some t
  | 0, some _, _ => none
  | fuel + 1, some curr, t =>
    match t.entries curr with
    | none => none
    | some (_, next) =>
      htClearChain fuel next
        { t with entries := update t.entries curr none, numKeys := t.numKeys - 1 }

/-- `ht_clear`, from bucket `i` on. -/
def htClearFrom : Nat → Nat → Ht → Option Ht
  | 0, _, t => some t
  | n + 1, i, t =>
    match htClearChain t.numKeys (t.buckets i) t with
    | none => none
    | some t => htClearFrom n (i + 1) { t with buckets := update t.buckets i none }

def htClear (t : Ht) : Option Ht := htClearFrom numBuckets 0 t

def htSize (t : Ht) : Nat := t.numKeys

/-- The entries that `ht_get_all` goes through, from bucket `i` on. -/
def htEntriesFrom (t : Ht) : Nat → Nat → Option (List HtEntry)
  | 0, _ => some []
  | n + 1, i =>
    match nodes t.entries t.numKeys (t.buckets i), htEntriesFrom t n (i + 1) with
    | some xs, some es => some (xs.map Prod.snd ++ es)
    | _, _ => none

/-- `ht_get_all`: the array has room for `num_keys+1` pointers and is zero at first. -/
def htGetAll (want : HtEntry → Int) (t : Ht) : Option (List Int) :=
  match htEntriesFrom t numBuckets 0 with
  | none => none
  | some es =>
    if es.length ≤ t.numKeys + 1 then
      some (es.map want ++ List.replicate (t.numKeys + 1 - es.length) 0)
    else none

def htKeys (t : Ht) : Option (List Int) := htGetAll HtEntry.key t

def htValues (t : Ht) : Option (List Int) := htGetAll HtEntry.value t

/-! ## Keys -/

/-- What a key says, whatever pointer it is. -/
def HtKeys.name (key : Int) : Int × Option (List UInt8) :=
  match keys.type with
  | .intKeys => (key, none)
  | .stringKeys => (0, if key = 0 then none else some (keys.str key))

variable {keys : HtKeys}

theorem HtKeys.equal_iff {a b : Int} : keys.equal a b = true ↔ keys.name a = keys.name b := by
  cases htype : keys.type with
  | intKeys => simp [equal, name, htype]
  | stringKeys =>
    simp only [equal, name, htype, strcmp]
    by_cases ha : a = 0 <;> by_cases hb : b = 0 <;> by_cases hab : a = b <;> simp_all

theorem HtKeys.hash_congr {a b : Int} (h : keys.name a = keys.name b) :
    keys.hash a = keys.hash b := by
  cases htype : keys.type with
  | intKeys => simpa [name, hash, htype] using h
  | stringKeys =>
    simp only [name, htype, Prod.mk.injEq, true_and] at h
    simp only [hash, htype, strhash]
    split_ifs at h ⊢ with ha hb hb
    · rfl
    · rw [Option.some.inj h]

/-- The bucket of a key. -/
def HtKeys.bucket (keys : HtKeys) (key : Int) : Nat := keys.bucketOf (keys.hash key)

theorem HtKeys.bucket_congr {a b : Int} (h : keys.name a = keys.name b) :
    keys.bucket a = keys.bucket b := by
  rw [bucket, bucket, hash_congr h]

theorem HtKeys.bucket_lt (keys : HtKeys) (key : Int) : keys.bucket key < numBuckets :=
  Nat.mod_lt _ (Nat.succ_pos 2)

/-! ## Chains -/

/-- The number of entries in all chains. -/
def total (chains : Nat → List (Nat × HtEntry)) : Nat :=
  (chains 0).length + (chains 1).length + (chains 2).length

theorem total_update (chains : Nat → List (Nat × HtEntry)) {b : Nat} (hb : b < numBuckets)
    (xs : List (Nat × HtEntry)) :
    total (update chains b xs) + (chains b).length = total chains + xs.length := by
  have hcases : b = 0 ∨ b = 1 ∨ b = 2 := by
    rw [numBuckets] at hb
    omega
  rcases hcases with rfl | rfl | rfl <;> simp [total, update] <;> omega

theorem length_le_total (chains : Nat → List (Nat × HtEntry)) {b : Nat} (hb : b < numBuckets) :
    (chains b).length ≤ total chains := by
  have h := total_update chains hb []
  rw [length_nil] at h
  omega

variable (keys) in
/-- A bucket's chain. -/
structure Ht.Bucket (t : Ht) (i : Nat) (xs : List (Nat × HtEntry)) : Prop where
  linked : Chain t.entries (t.buckets i) xs
  placed : ∀ x ∈ xs, x.2.hc = keys.hash x.2.key ∧ keys.bucket x.2.key = i ∧ x.2.value ≠ 0
  distinct : xs.Pairwise fun x y => keys.name x.2.key ≠ keys.name y.2.key

variable (keys) in
/-- The buckets are these chains. -/
structure Ht.Table (t : Ht) (chains : Nat → List (Nat × HtEntry)) : Prop where
  bucket : ∀ i, i < numBuckets → t.Bucket keys i (chains i)
  count : t.numKeys = total chains

variable {t t' : Ht} {chains : Nat → List (Nat × HtEntry)} {b : Nat}

theorem Ht.Table.apart (h : t.Table keys chains) {i j : Nat} (hi : i < numBuckets)
    (hj : j < numBuckets) {x y : Nat × HtEntry} (hx : x ∈ chains i) (hy : y ∈ chains j)
    (hne : i ≠ j ∨ keys.name x.2.key ≠ keys.name y.2.key) : x.1 ≠ y.1 := by
  intro haddr
  have hsame := (h.bucket i hi).linked.same (h.bucket j hj).linked hx hy haddr
  rcases hne with hne | hne
  · rw [← ((h.bucket i hi).placed x hx).2.1, ← ((h.bucket j hj).placed y hy).2.1, hsame] at hne
    exact hne rfl
  · rw [hsame] at hne
    exact hne rfl

theorem Ht.Table.update (h : t.Table keys chains) (hb : b < numBuckets) {xs : List (Nat × HtEntry)}
    (hentries : ∀ i, i < numBuckets → i ≠ b → ∀ x ∈ chains i, t'.entries x.1 = t.entries x.1)
    (hbuckets : ∀ i, i ≠ b → t'.buckets i = t.buckets i) (hbucket : t'.Bucket keys b xs)
    (hcount : t'.numKeys + (chains b).length = t.numKeys + xs.length) :
    t'.Table keys (update chains b xs) where
  bucket i hi := by
    by_cases hib : i = b
    · subst hib
      rw [update_self]
      exact hbucket
    · have hi' := h.bucket i hi
      rw [update_of_ne hib]
      refine ⟨?_, hi'.placed, hi'.distinct⟩
      rw [hbuckets i hib]
      exact hi'.linked.congr (hentries i hi hib)
  count := by
    have htotal := total_update chains hb xs
    have hbefore := h.count
    omega

/-! ## The map -/

/-- A finite map from keys: the key it was first put under, and the value. -/
abbrev HtMap := Int → Option (Int × Int)

variable (keys) in
/-- The chains hold the map. -/
def Shows (chains : Nat → List (Nat × HtEntry)) (m : HtMap) : Prop :=
  ∀ key k v, m key = some (k, v) ↔
    ∃ x ∈ chains (keys.bucket key), keys.name x.2.key = keys.name key ∧ x.2.key = k ∧ x.2.value = v

variable {m : HtMap}

theorem Shows.none_iff (h : Shows keys chains m) (key : Int) :
    m key = none ↔ ∀ x ∈ chains (keys.bucket key), keys.name x.2.key ≠ keys.name key := by
  rw [Option.eq_none_iff_forall_not_mem]
  constructor
  · intro hnone x hx hname
    exact hnone _ ((h key _ _).mpr ⟨x, hx, hname, rfl, rfl⟩)
  · rintro hall ⟨k, v⟩ hkv
    obtain ⟨x, hx, hname, -⟩ := (h key k v).mp hkv
    exact hall x hx hname

theorem Shows.update (h : Shows keys chains m) {m' : HtMap} {xs : List (Nat × HtEntry)}
    (hother : ∀ key, keys.bucket key ≠ b → m' key = m key)
    (hsame : ∀ key, keys.bucket key = b → ∀ k v, m' key = some (k, v) ↔
      ∃ x ∈ xs, keys.name x.2.key = keys.name key ∧ x.2.key = k ∧ x.2.value = v) :
    Shows keys (update chains b xs) m' := by
  intro key k v
  by_cases hb : keys.bucket key = b
  · rw [hb, update_self]
    exact hsame key hb k v
  · rw [update_of_ne hb, hother key hb]
    exact h key k v

variable (keys) in
/-- Where a key is: its chain is cut at the entry that has it. -/
structure Found (t : Ht) (key : Int) (m : HtMap) (es ys zs : List (Nat × HtEntry)) (c : Nat)
    (e : HtEntry) (n : Option Nat) : Prop where
  chain : es = ys ++ (c, e) :: zs
  name : keys.name e.key = keys.name key
  others : ∀ x ∈ ys ++ zs, keys.name x.2.key ≠ keys.name key
  shown : m key = some (e.key, e.value)
  find : htFind keys t key = some (lastAddr none ys, some c)
  entry : t.entries c = some (e, n)
  linked : Chain t.entries n zs

theorem Ht.Table.find (h : t.Table keys chains) (hm : Shows keys chains m) (key : Int) :
    (∀ x ∈ chains (keys.bucket key), keys.name x.2.key ≠ keys.name key) ∧ m key = none ∧
      (∃ prev, htFind keys t key = some (prev, none)) ∨
    ∃ ys zs c e n, Found keys t key m (chains (keys.bucket key)) ys zs c e n := by
  have hb := keys.bucket_lt key
  have hchain := (h.bucket _ hb).linked
  have hfuel : (chains (keys.bucket key)).length ≤ t.numKeys := by
    rw [h.count]
    exact length_le_total chains hb
  have htest {x : Nat × HtEntry} (hx : x ∈ chains (keys.bucket key)) :
      (x.2.hc == keys.hash key && keys.equal x.2.key key) = true ↔
        keys.name x.2.key = keys.name key := by
    rw [Bool.and_eq_true, beq_iff_eq, HtKeys.equal_iff, ((h.bucket _ hb).placed x hx).1]
    exact and_iff_right_of_imp HtKeys.hash_congr
  rcases hchain.walk (fun e => e.hc == keys.hash key && keys.equal e.key key) hfuel none with
    ⟨hall, hwalk⟩ | ⟨ys, c, e, zs, hes, -, he, hwalk⟩
  · have hnone : ∀ x ∈ chains (keys.bucket key), keys.name x.2.key ≠ keys.name key := by
      intro x hx hname
      exact absurd ((htest hx).mpr hname) (Bool.eq_false_iff.mp (hall x hx))
    exact .inl ⟨hnone, (hm.none_iff key).mpr hnone, _, hwalk⟩
  · have hmem : (c, e) ∈ chains (keys.bucket key) := by
      rw [hes]
      exact mem_append_right ys mem_cons_self
    have hname := (htest hmem).mp he
    have hdistinct := (h.bucket _ hb).distinct
    rw [hes] at hchain hdistinct
    obtain ⟨hys, hrest, hbetween⟩ := pairwise_append.mp hdistinct
    obtain ⟨n, hn, hzs⟩ := hchain.split
    refine .inr ⟨ys, zs, c, e, n, hes, hname, ?_, ?_, hwalk, hn, hzs⟩
    · intro x hx
      rw [← hname]
      rcases mem_append.mp hx with hx | hx
      · exact hbetween x hx _ mem_cons_self
      · exact (rel_of_pairwise_cons hrest hx).symm
    · exact (hm key _ _).mpr ⟨_, hmem, hname, rfl, rfl⟩

/-! ## Operations -/

theorem lastAddr_concat (p : Option Nat) (xs : List (Nat × HtEntry)) (x : Nat × HtEntry) :
    lastAddr p (xs ++ [x]) = some x.1 := by
  rw [lastAddr, foldl_append]
  rfl

section Found

variable {key : Int} {ys zs : List (Nat × HtEntry)} {c : Nat} {e : HtEntry} {n : Option Nat}

theorem Ht.Table.relink (h : t.Table keys chains)
    (hf : Found keys t key m (chains (keys.bucket key)) ys zs c e n)
    (ht' : t.relink (keys.bucket key) (lastAddr none ys) n = t') :
    Chain t'.entries (t'.buckets (keys.bucket key)) (ys ++ zs) ∧
      (∀ i, i ≠ keys.bucket key → t'.buckets i = t.buckets i) ∧
      (∀ i, i < numBuckets → i ≠ keys.bucket key → ∀ x ∈ chains i,
        t'.entries x.1 = t.entries x.1) ∧
      t'.entries c = some (e, n) ∧ t'.numKeys = t.numKeys := by
  subst ht'
  have hb := keys.bucket_lt key
  rcases eq_nil_or_concat' ys with rfl | ⟨ys, a, rfl⟩
  · refine ⟨?_, fun i hi => Function.update_of_ne hi _ _, fun _ _ _ _ _ => rfl, hf.entry, rfl⟩
    change Chain t.entries (Function.update t.buckets _ n _) zs
    rw [Function.update_self]
    exact hf.linked
  · rw [lastAddr_concat]
    have hchain := (h.bucket _ hb).linked
    have hdistinct := (h.bucket _ hb).distinct
    have hapart {x : Nat × HtEntry} := fun hx ha hne =>
      h.apart hb hb (x := x) (y := a) hx ha (.inr hne)
    rw [hf.chain] at hchain hdistinct hapart
    have ha : a ∈ ys ++ [a] ++ (c, e) :: zs := by simp
    obtain ⟨hleft, -, hbetween⟩ := pairwise_append.mp hdistinct
    have hright : ∀ z ∈ (c, e) :: zs, z.1 ≠ a.1 := fun z hz =>
      hapart (mem_append_right _ hz) ha (hbetween a (by simp) z hz).symm
    refine ⟨?_, fun _ _ => rfl, fun i hi hib x hx => ?_, ?_, rfl⟩
    · refine hchain.unlink hf.linked (fun x hx => ?_) fun z hz =>
        hright z (mem_cons_of_mem _ hz)
      refine hapart (by simp [hx]) ha ?_
      exact (pairwise_append.mp hleft).2.2 x hx a mem_cons_self
    · refine setNext_of_ne (h.apart hi hb hx ?_ (.inl hib)) n
      rw [hf.chain]
      exact ha
    · exact (setNext_of_ne (hright (c, e) mem_cons_self) n).trans hf.entry

theorem Ht.Table.alone (h : t.Table keys chains)
    (hf : Found keys t key m (chains (keys.bucket key)) ys zs c e n) {i : Nat}
    (hi : i < numBuckets) {x : Nat × HtEntry} (hx : x ∈ chains i)
    (hne : i ≠ keys.bucket key ∨ x ∈ ys ++ zs) : x.1 ≠ c := by
  have hb := keys.bucket_lt key
  have hc : (c, e) ∈ chains (keys.bucket key) := by
    rw [hf.chain]
    simp
  refine h.apart hi hb hx hc (hne.imp_right fun hx => ?_)
  rw [hf.name]
  exact hf.others x hx

theorem Ht.Table.front (h : t.Table keys chains) (hm : Shows keys chains m)
    (hf : Found keys t key m (chains (keys.bucket key)) ys zs c e n) :
    ∃ t' chains', htGet keys t key = some (some e, t') ∧ t'.Table keys chains' ∧
      Shows keys chains' m := by
  have hb := keys.bucket_lt key
  have hbucket := h.bucket _ hb
  have hget := hf.find
  rcases eq_nil_or_concat' ys with rfl | ⟨ys, a, rfl⟩
  · exact ⟨t, chains, by simp only [htGet, hget, lastAddr, foldl_nil, hf.entry], h, hm⟩
  · obtain ⟨hchain, -, hother, hentry, hcount⟩ := h.relink hf rfl
    have hperm : ((c, e) :: (ys ++ [a] ++ zs)).Perm (chains (keys.bucket key)) := by
      rw [hf.chain]
      exact perm_middle.symm
    rw [lastAddr_concat] at hget hchain hother hentry
    have hpush := hchain.push hentry fun x hx => h.alone hf hb
      (hperm.subset (List.mem_cons_of_mem _ hx)) (.inr hx)
    refine ⟨_, Function.update chains (keys.bucket key) ((c, e) :: (ys ++ [a] ++ zs)),
      by simp only [htGet, hget, hf.entry]; rfl, ?_, ?_⟩
    · refine h.update hb (fun i hi hib x hx => ?_) (fun i hib => Function.update_of_ne hib _ _)
        ⟨?_, fun x hx => hbucket.placed x (hperm.subset hx), ?_⟩ ?_
      · exact (setNext_of_ne (h.alone hf hi hx (.inl hib)) _).trans (hother i hi hib x hx)
      · dsimp only
        rw [← HtKeys.bucket, update_self]
        exact hpush
      · exact (hperm.pairwise_iff fun hne => hne.symm).mpr hbucket.distinct
      · rw [hperm.length_eq]
    · refine hm.update (fun _ _ => rfl) fun key' hkey' k v => ?_
      rw [hm key' k v, hkey']
      simp only [hperm.mem_iff]

end Found

variable (keys) in
/-- The map without a key. -/
def HtMap.erase (m : HtMap) (key : Int) : HtMap := fun k => if keys.equal key k then none else m k

variable (keys) in
/-- The map with a value put; the key stays the one it was first put under. -/
def HtMap.put (m : HtMap) (key value : Int) : HtMap :=
  if value = 0 then m.erase keys key
  else fun k => if keys.equal key k then some ((m key).elim key Prod.fst, value) else m k

theorem HtMap.erase_of_none (h : Shows keys chains m) {key : Int} (hnone : m key = none) :
    m.erase keys key = m := by
  funext k
  rw [erase]
  split
  · next heq =>
    rw [HtKeys.equal_iff] at heq
    symm
    rw [h.none_iff, ← HtKeys.bucket_congr heq]
    intro x hx
    rw [← heq]
    exact (h.none_iff key).mp hnone x hx
  · rfl

theorem Shows.set (h : Shows keys chains m) {key : Int} {r : Option (Int × Int)}
    {xs : List (Nat × HtEntry)}
    (hsame : ∀ k v, r = some (k, v) ↔
      ∃ x ∈ xs, keys.name x.2.key = keys.name key ∧ x.2.key = k ∧ x.2.value = v)
    (hother : ∀ x, keys.name x.2.key ≠ keys.name key →
      (x ∈ xs ↔ x ∈ chains (keys.bucket key))) :
    Shows keys (Function.update chains (keys.bucket key) xs)
      fun k => if keys.equal key k then r else m k := by
  refine h.update (fun key' hkey' => ?_) fun key' hkey' k v => ?_
  · refine if_neg fun heq => hkey' ?_
    exact HtKeys.bucket_congr (HtKeys.equal_iff.mp heq).symm
  · split
    · next heq => rw [hsame, HtKeys.equal_iff.mp heq]
    · next hne =>
      rw [HtKeys.equal_iff] at hne
      rw [h key' k v, hkey']
      refine exists_congr fun x => and_congr_left fun hx => (hother x ?_).symm
      exact fun hname => hne (hname.symm.trans hx.1)

section Found

variable {key : Int} {ys zs : List (Nat × HtEntry)} {c : Nat} {e : HtEntry} {n : Option Nat}

theorem Found.mem_iff (hf : Found keys t key m (chains (keys.bucket key)) ys zs c e n)
    (x : Nat × HtEntry) (hx : keys.name x.2.key ≠ keys.name key) :
    x ∈ ys ++ zs ↔ x ∈ chains (keys.bucket key) := by
  have hne : x ≠ (c, e) := by
    rintro rfl
    exact hx hf.name
  simp [hf.chain, hne]

theorem Ht.Table.drop (h : t.Table keys chains) (hm : Shows keys chains m)
    (hf : Found keys t key m (chains (keys.bucket key)) ys zs c e n) :
    (t.drop (keys.bucket key) (lastAddr none ys) c n).Table keys
        (Function.update chains (keys.bucket key) (ys ++ zs)) ∧
      Shows keys (Function.update chains (keys.bucket key) (ys ++ zs)) (m.erase keys key) := by
  have hb := keys.bucket_lt key
  have hbucket := h.bucket _ hb
  obtain ⟨hchain, hbuckets, hother, -, hcount⟩ := h.relink hf rfl
  have hsub : (ys ++ zs).Sublist (chains (keys.bucket key)) := by
    rw [hf.chain]
    exact (sublist_cons_self _ _).append_left ys
  constructor
  · refine h.update hb (fun i hi hib x hx => ?_) hbuckets
      ⟨?_, fun x hx => hbucket.placed x (hsub.subset hx), hbucket.distinct.sublist hsub⟩ ?_
    · exact (update_of_ne (h.alone hf hi hx (.inl hib)) _ _).trans (hother i hi hib x hx)
    · exact hchain.congr fun x hx =>
        update_of_ne (h.alone hf hb (hsub.subset hx) (.inr hx)) _ _
    · have hle := length_le_total chains hb
      rw [← h.count, hf.chain] at hle
      simp only [Ht.drop, hcount, hf.chain, length_append, length_cons] at hle ⊢
      omega
  · refine hm.set (fun k v => iff_of_false nofun ?_) (hf.mem_iff · ·)
    rintro ⟨x, hx, hname, -⟩
    exact hf.others x hx hname

theorem Ht.Table.replace (h : t.Table keys chains) (hm : Shows keys chains m)
    (hf : Found keys t key m (chains (keys.bucket key)) ys zs c e n) {value : Int}
    (hvalue : value ≠ 0) :
    Ht.Table keys { t with entries := Function.update t.entries c (some ({ e with value }, n)) }
        (Function.update chains (keys.bucket key) (ys ++ (c, { e with value }) :: zs)) ∧
      Shows keys (Function.update chains (keys.bucket key) (ys ++ (c, { e with value }) :: zs))
        (m.put keys key value) := by
  have hb := keys.bucket_lt key
  have hchain := (h.bucket _ hb).linked
  have hdistinct := (h.bucket _ hb).distinct
  have hplaced := (h.bucket _ hb).placed
  have halone := fun x hx (hys : x ∈ ys ++ zs) => h.alone hf hb (x := x) hx (.inr hys)
  rw [hf.chain] at hchain hdistinct hplaced halone
  -- the new list has the same keys in the same places
  have hkeys : (ys ++ (c, { e with value }) :: zs).map (fun x => keys.name x.2.key) =
      (ys ++ (c, e) :: zs).map fun x => keys.name x.2.key := by
    simp
  constructor
  · refine h.update hb (fun i hi hib x hx => ?_) (fun _ _ => rfl)
      ⟨hchain.rewrite hf.entry fun x hx => halone x (by grind) hx, fun x hx => ?_, ?_⟩ ?_
    · exact Function.update_of_ne (h.alone hf hi hx (.inl hib)) _ _
    · rcases List.mem_append.mp hx with hx | hx
      · exact hplaced x (mem_append_left _ hx)
      rcases mem_cons.mp hx with rfl | hx
      · obtain ⟨hhc, hbucket, -⟩ := hplaced (c, e) (by simp)
        exact ⟨hhc, hbucket, hvalue⟩
      · exact hplaced x (mem_append_right _ (mem_cons_of_mem _ hx))
    · rw [← pairwise_map (R := (· ≠ ·)), hkeys]
      exact pairwise_map.mpr hdistinct
    · simp [hf.chain]
  · rw [HtMap.put, if_neg hvalue]
    refine hm.set (fun k v => ?_) fun x hx => ?_
    · rw [hf.shown]
      constructor
      · intro hkv
        cases hkv
        exact ⟨(c, { e with value }), by simp, hf.name, rfl, rfl⟩
      · rintro ⟨x, hx, hname, rfl, rfl⟩
        have hout := hf.others x
        grind
    · rw [← hf.mem_iff x hx]
      have hne : x ≠ (c, { e with value }) := by
        rintro rfl
        exact hx hf.name
      simp [hne]

end Found

theorem Ht.Table.insert (h : t.Table keys chains) (hm : Shows keys chains m) {key value : Int}
    {addr : Nat} (hvalue : value ≠ 0) (hfree : t.entries addr = none) (hnone : m key = none) :
    ∃ chains', Ht.Table keys
        ⟨Function.update t.entries addr
            (some (⟨keys.hash key, key, value⟩, t.buckets (keys.bucket key))),
          Function.update t.buckets (keys.bucket key) (some addr), t.numKeys + 1⟩ chains' ∧
      Shows keys chains' (m.put keys key value) := by
  have hb := keys.bucket_lt key
  have hlive {i : Nat} (hi : i < numBuckets) {x : Nat × HtEntry} (hx : x ∈ chains i) :
      x.1 ≠ addr := by
    rintro rfl
    obtain ⟨n, hn⟩ := ((h.bucket i hi).linked).node hx
    rw [hfree] at hn
    cases hn
  have hnew := (hm.none_iff key).mp hnone
  refine ⟨Function.update chains (keys.bucket key)
    ((addr, ⟨keys.hash key, key, value⟩) :: chains (keys.bucket key)), ?_, ?_⟩
  · refine h.update hb (fun i hi _ x hx => Function.update_of_ne (hlive hi hx) _ _)
      (fun i hib => Function.update_of_ne hib _ _) ⟨?_, ?_, ?_⟩ ?_
    · dsimp only
      rw [Function.update_self]
      exact ⟨rfl, _, update_self _ _ _, (h.bucket _ hb).linked.congr fun x hx =>
        update_of_ne (hlive hb hx) _ _⟩
    · rintro x hx
      rcases mem_cons.mp hx with rfl | hx
      · exact ⟨rfl, rfl, hvalue⟩
      · exact (h.bucket _ hb).placed x hx
    · exact pairwise_cons.mpr ⟨fun x hx => (hnew x hx).symm, (h.bucket _ hb).distinct⟩
    · change t.numKeys + 1 + (chains (keys.bucket key)).length = t.numKeys + _
      rw [length_cons]
      omega
  · rw [HtMap.put, if_neg hvalue]
    refine hm.set (fun k v => ?_) fun x hx => ?_
    · rw [hnone]
      constructor
      · intro hkv
        cases hkv
        exact ⟨_, mem_cons_self, rfl, rfl, rfl⟩
      · rintro ⟨x, hx, hname, rfl, rfl⟩
        rcases mem_cons.mp hx with rfl | hx
        · rfl
        · exact absurd hname (hnew x hx)
    · refine mem_cons.trans (or_iff_right ?_)
      rintro rfl
      exact hx rfl

/-! ## All entries -/

theorem htClearChain_eq {p : Option Nat} {xs : List (Nat × HtEntry)} (h : Chain t.entries p xs)
    {fuel : Nat} (hfuel : xs.length ≤ fuel) (hapart : xs.Pairwise fun x y => x.1 ≠ y.1)
    (hcount : xs.length ≤ t.numKeys) :
    ∃ t', htClearChain fuel p t = some t' ∧ t'.buckets = t.buckets ∧
      t'.numKeys + xs.length = t.numKeys ∧
      ∀ a, (∀ x ∈ xs, x.1 ≠ a) → t'.entries a = t.entries a := by
  induction xs generalizing p t fuel with
  | nil =>
    obtain rfl : p = none := h
    exact ⟨t, by rw [htClearChain], rfl, rfl, fun _ _ => rfl⟩
  | cons x xs ih =>
    obtain ⟨rfl, n, hx, hrest⟩ := h
    obtain ⟨hne, hapart⟩ := pairwise_cons.mp hapart
    rw [length_cons] at hfuel hcount
    obtain ⟨fuel, rfl⟩ := Nat.exists_eq_add_one_of_ne_zero (show fuel ≠ 0 by omega)
    have hfreed : Chain (update t.entries x.1 none) n xs := hrest.congr fun y hy =>
      update_of_ne (hne y hy).symm _ _
    obtain ⟨t', hclear, hbuckets, hkeys, hother⟩ :=
      ih (t := ⟨_, t.buckets, t.numKeys - 1⟩) hfreed (Nat.le_of_succ_le_succ hfuel) hapart
        (by dsimp only; omega)
    refine ⟨t', by rw [htClearChain, hx]; exact hclear, hbuckets, ?_, fun a ha => ?_⟩
    · rw [length_cons]
      dsimp only at hkeys
      omega
    · rw [hother a fun y hy => ha y (mem_cons_of_mem x hy)]
      exact update_of_ne (ha x mem_cons_self).symm _ _

theorem Ht.Table.clearFrom (n : Nat) {i : Nat} (hi : i + n = numBuckets) (h : t.Table keys chains)
    (hdone : ∀ j, j < i → chains j = []) :
    ∃ t' chains', htClearFrom n i t = some t' ∧ t'.Table keys chains' ∧
      ∀ j, j < numBuckets → chains' j = [] := by
  induction n generalizing i t chains with
  | zero => exact ⟨t, chains, rfl, h, fun j hj => hdone j (by omega)⟩
  | succ n ih =>
    have hb : i < numBuckets := by omega
    have hcount := h.count ▸ length_le_total chains hb
    have hapart := ((h.bucket i hb).distinct).imp_of_mem fun hx hy hne => h.apart hb hb hx hy (.inr hne)
    obtain ⟨t1, hclear, hbuckets, hkeys, hother⟩ :=
      htClearChain_eq ((h.bucket i hb).linked) hcount hapart hcount
    have hnext : Ht.Table keys { t1 with buckets := Function.update t1.buckets i none }
        (Function.update chains i []) := h.update hb
      (fun j hj hji x hx => hother _ fun y hy => h.apart hb hj hy hx (.inl hji.symm))
      (fun j hj => (Function.update_of_ne hj _ _).trans (congrFun hbuckets j))
      ⟨update_self i _ t1.buckets, by simp, .nil⟩ hkeys
    simp only [htClearFrom, hclear]
    refine ih (by omega) hnext fun j hj => ?_
    by_cases hji : j = i
    · rw [hji, update_self]
    · rw [update_of_ne hji]
      exact hdone j (by omega)

/-- The entries in all chains. -/
def entriesOf (chains : Nat → List (Nat × HtEntry)) : List HtEntry :=
  (chains 0 ++ (chains 1 ++ chains 2)).map Prod.snd

theorem mem_entriesOf {e : HtEntry} :
    e ∈ entriesOf chains ↔ ∃ i, i < numBuckets ∧ ∃ x ∈ chains i, x.2 = e := by
  simp only [entriesOf, mem_map, mem_append]
  constructor
  · rintro ⟨x, hx | hx | hx, rfl⟩
    · exact ⟨0, by decide, x, hx, rfl⟩
    · exact ⟨1, by decide, x, hx, rfl⟩
    · exact ⟨2, by decide, x, hx, rfl⟩
  · rintro ⟨i, hi, x, hx, rfl⟩
    have hcases : i = 0 ∨ i = 1 ∨ i = 2 := by
      rw [numBuckets] at hi
      omega
    rcases hcases with rfl | rfl | rfl
    · exact ⟨x, .inl hx, rfl⟩
    · exact ⟨x, .inr (.inl hx), rfl⟩
    · exact ⟨x, .inr (.inr hx), rfl⟩

theorem length_entriesOf (chains : Nat → List (Nat × HtEntry)) :
    (entriesOf chains).length = total chains := by
  simp only [entriesOf, total, length_map, length_append]
  omega

theorem Ht.Table.getAll (h : t.Table keys chains) (want : HtEntry → Int) :
    htGetAll want t = some ((entriesOf chains).map want ++ [0]) := by
  have hnodes (i : Nat) (hi : i < numBuckets) :
      nodes t.entries t.numKeys (t.buckets i) = some (chains i) :=
    ((h.bucket i hi).linked).nodes (h.count ▸ length_le_total chains hi)
  have hentries : htEntriesFrom t numBuckets 0 = some (entriesOf chains) := by
    simp only [numBuckets, htEntriesFrom, hnodes 0 (by decide), hnodes 1 (by decide),
      hnodes 2 (by decide), entriesOf, map_append, append_nil]
  simp only [htGetAll, hentries, h.count, ← length_entriesOf]
  rw [if_pos (Nat.le_succ _), Nat.add_sub_cancel_left]
  rfl

/-! ## Runs -/

inductive HtOp
  | put (key value : Int) (addr : Nat)
  | remove (key : Int)
  | getValue (key : Int)
  | getKey (key : Int)
  | clear

/-- `malloc` gives an address that is not in use. -/
def HtOp.Fresh (t : Ht) : HtOp → Prop
  | .put _ _ addr => t.entries addr = none
  | _ => True

variable (keys)

/-- An operation on the table, with the pointer it returns. -/
def htStep (t : Ht) : HtOp → Option (Int × Ht)
  | .put key value addr => htPut keys t key value addr
  | .remove key => htRemove keys t key
  | .getValue key => htGetValue keys t key
  | .getKey key => htGetKey keys t key
  | .clear => (htClear t).map fun t => (0, t)

/-- The operation on the map. -/
def HtMap.step (m : HtMap) : HtOp → Int × HtMap
  | .put key value _ => ((m key).elim 0 Prod.snd, m.put keys key value)
  | .remove key => ((m key).elim 0 Prod.snd, m.erase keys key)
  | .getValue key => ((m key).elim 0 Prod.snd, m)
  | .getKey key => ((m key).elim 0 Prod.fst, m)
  | .clear => (0, fun _ => none)

/-- A table and a map after the same operations. -/
inductive HtRun : Ht → HtMap → Prop
  | new : HtRun htNew fun _ => none
  | step {t t' : Ht} {m : HtMap} {r : Int} (op : HtOp) :
      HtRun t m → op.Fresh t → htStep keys t op = some (r, t') → HtRun t' (m.step keys op).2

variable {keys}

theorem Ht.Table.step (h : t.Table keys chains) (hm : Shows keys chains m) (op : HtOp)
    (hfresh : op.Fresh t) :
    ∃ t' chains', htStep keys t op = some ((m.step keys op).1, t') ∧ t'.Table keys chains' ∧
      Shows keys chains' (m.step keys op).2 := by
  cases op with
  | put key value addr =>
    rcases h.find hm key with ⟨-, hnone, prev, hfind⟩ | ⟨ys, zs, c, e, n, hf⟩
    · by_cases hvalue : value = 0
      · refine ⟨t, chains, ?_, h, ?_⟩
        · simp only [htStep, htPut, hfind, if_pos hvalue, HtMap.step, hnone, Option.elim_none]
        · rw [HtMap.step, HtMap.put, if_pos hvalue, HtMap.erase_of_none hm hnone]
          exact hm
      · obtain ⟨chains', htable, hshows⟩ := h.insert hm hvalue hfresh hnone
        refine ⟨_, chains', ?_, htable, hshows⟩
        simp only [htStep, htPut, hfind, if_neg hvalue, HtMap.step, hnone, Option.elim_none]
        rfl
    · by_cases hvalue : value = 0
      · obtain ⟨htable, hshows⟩ := h.drop hm hf
        refine ⟨_, _, ?_, htable, ?_⟩
        · simp only [htStep, htPut, hf.find, hf.entry, if_pos hvalue, HtMap.step, hf.shown]
          rfl
        · rw [HtMap.step, HtMap.put, if_pos hvalue]
          exact hshows
      · obtain ⟨htable, hshows⟩ := h.replace hm hf hvalue
        refine ⟨_, _, ?_, htable, hshows⟩
        simp only [htStep, htPut, hf.find, hf.entry, if_neg hvalue, HtMap.step, hf.shown]
        rfl
  | remove key =>
    rcases h.find hm key with ⟨-, hnone, prev, hfind⟩ | ⟨ys, zs, c, e, n, hf⟩
    · refine ⟨t, chains, ?_, h, ?_⟩
      · simp only [htStep, htRemove, hfind, HtMap.step, hnone, Option.elim_none]
      · rw [HtMap.step, HtMap.erase_of_none hm hnone]
        exact hm
    · obtain ⟨htable, hshows⟩ := h.drop hm hf
      refine ⟨_, _, ?_, htable, hshows⟩
      simp only [htStep, htRemove, hf.find, hf.entry, HtMap.step, hf.shown]
      rfl
  | getValue key =>
    rcases h.find hm key with ⟨-, hnone, prev, hfind⟩ | ⟨ys, zs, c, e, n, hf⟩
    · exact ⟨t, chains, by simp [htStep, htGetValue, htGet, hfind, HtMap.step, hnone], h, hm⟩
    · obtain ⟨t', chains', hget, htable, hshows⟩ := h.front hm hf
      exact ⟨t', chains', by simp [htStep, htGetValue, hget, HtMap.step, hf.shown], htable, hshows⟩
  | getKey key =>
    rcases h.find hm key with ⟨-, hnone, prev, hfind⟩ | ⟨ys, zs, c, e, n, hf⟩
    · exact ⟨t, chains, by simp [htStep, htGetKey, htGet, hfind, HtMap.step, hnone], h, hm⟩
    · obtain ⟨t', chains', hget, htable, hshows⟩ := h.front hm hf
      exact ⟨t', chains', by simp [htStep, htGetKey, hget, HtMap.step, hf.shown], htable, hshows⟩
  | clear =>
    obtain ⟨t', chains', hclear, htable, hempty⟩ :=
      h.clearFrom numBuckets (Nat.zero_add _) fun j hj => absurd hj (Nat.not_lt_zero j)
    refine ⟨t', chains', by simp only [htStep, htClear, hclear, Option.map_some, HtMap.step],
      htable, fun key k v => ?_⟩
    rw [hempty _ (keys.bucket_lt key)]
    simp [HtMap.step]

theorem HtRun.shows (hrun : HtRun keys t m) :
    ∃ chains, t.Table keys chains ∧ Shows keys chains m := by
  induction hrun with
  | new =>
    exact ⟨fun _ => [], ⟨fun _ _ => ⟨rfl, by simp, .nil⟩, rfl⟩, fun key k v => by simp⟩
  | step op _ hfresh hstep ih =>
    obtain ⟨chains, htable, hshows⟩ := ih
    obtain ⟨t', chains', hstep', htable', hshows'⟩ := htable.step hshows op hfresh
    rw [hstep] at hstep'
    cases hstep'
    exact ⟨chains', htable', hshows'⟩

theorem Ht.Table.shown_iff (h : t.Table keys chains) (hm : Shows keys chains m) {key k v : Int} :
    m key = some (k, v) ↔
      (k, v) ∈ (entriesOf chains).map (fun e => (e.key, e.value)) ∧ keys.equal k key = true := by
  rw [hm key k v, HtKeys.equal_iff]
  constructor
  · rintro ⟨x, hx, hname, rfl, rfl⟩
    have he := mem_entriesOf.mpr ⟨_, keys.bucket_lt key, x, hx, rfl⟩
    exact ⟨mem_map.mpr ⟨x.2, he, rfl⟩, hname⟩
  · rintro ⟨hkv, hname⟩
    obtain ⟨e, he, heq⟩ := mem_map.mp hkv
    cases heq
    obtain ⟨i, hi, x, hx, rfl⟩ := mem_entriesOf.mp he
    refine ⟨x, ?_, hname, rfl, rfl⟩
    rwa [← HtKeys.bucket_congr hname, ((h.bucket i hi).placed x hx).2.1]

theorem Ht.Table.entriesOf_distinct (h : t.Table keys chains) :
    (entriesOf chains).Pairwise fun e f => keys.name e.key ≠ keys.name f.key := by
  have hacross {i j : Nat} (hi : i < numBuckets) (hj : j < numBuckets) (hij : i ≠ j) :
      ∀ x ∈ chains i, ∀ y ∈ chains j, keys.name x.2.key ≠ keys.name y.2.key := by
    intro x hx y hy hname
    refine hij ?_
    rw [← ((h.bucket i hi).placed x hx).2.1, ← ((h.bucket j hj).placed y hy).2.1]
    exact HtKeys.bucket_congr hname
  refine pairwise_map.mpr (pairwise_append.mpr ⟨(h.bucket 0 (by decide)).distinct,
    pairwise_append.mpr ⟨(h.bucket 1 (by decide)).distinct, (h.bucket 2 (by decide)).distinct,
      hacross (by decide) (by decide) (by decide)⟩, fun x hx y hy => ?_⟩)
  rcases mem_append.mp hy with hy | hy
  · exact hacross (by decide) (by decide) (by decide) x hx y hy
  · exact hacross (by decide) (by decide) (by decide) x hx y hy

/-- **The tables.**  Over any run, every operation returns what the map says; `ht_keys` and
`ht_values` list the map's entries, each of them once, and then `NULL`. -/
theorem ht_refines_map (hrun : HtRun keys t m) :
    (∀ op : HtOp, op.Fresh t → ∃ t', htStep keys t op = some ((m.step keys op).1, t')) ∧
    ∃ es : List (Int × Int),
      (∀ key k v, m key = some (k, v) ↔ (k, v) ∈ es ∧ keys.equal k key = true) ∧
      (es.Pairwise fun x y => keys.equal x.1 y.1 = false) ∧ htSize t = es.length ∧
      htKeys t = some (es.map Prod.fst ++ [0]) ∧ htValues t = some (es.map Prod.snd ++ [0]) := by
  obtain ⟨chains, htable, hshows⟩ := hrun.shows
  constructor
  · intro op hfresh
    obtain ⟨t', -, hstep, -⟩ := htable.step hshows op hfresh
    exact ⟨t', hstep⟩
  · refine ⟨(entriesOf chains).map fun e => (e.key, e.value), fun key k v =>
      htable.shown_iff hshows, ?_, ?_, ?_, ?_⟩
    · refine pairwise_map.mpr (htable.entriesOf_distinct.imp fun hne => ?_)
      rw [Bool.eq_false_iff]
      exact fun heq => hne (HtKeys.equal_iff.mp heq)
    · rw [length_map, length_entriesOf]
      exact htable.count
    · rw [map_map]
      exact htable.getAll HtEntry.key
    · rw [map_map]
      exact htable.getAll HtEntry.value

/-- Two keys of one bucket; the one that is read is behind the other. -/
theorem ht_refines_map_behind : ∃ t m,
    HtRun ⟨.intKeys, 64, fun _ => [], fun c => c.toBitVec.signExtend 32⟩ t m ∧
    ∃ t', htStep ⟨.intKeys, 64, fun _ => [], fun c => c.toBitVec.signExtend 32⟩ t (.getValue 1)
      = some (10, t') := by
  have hrun : HtRun ⟨.intKeys, 64, fun _ => [], fun c => c.toBitVec.signExtend 32⟩ _ _ :=
    .step (.put 4 40 101) (.step (.put 1 10 100) .new rfl rfl) rfl rfl
  exact ⟨_, _, hrun, (ht_refines_map hrun).1 (.getValue 1) trivial⟩

end IDeviceStack.WebkitProxy
