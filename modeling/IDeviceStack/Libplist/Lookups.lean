/-
# `Libplist.Lookups` — what a set does to the other lookups

Dictionaries as the parsers make them: keys may come more than once, and a key read from a
binary plist may have a `length` that is not that of its C string (`DictNodes`).  A scan gives the
first child whose C string is the key; a table gives one of the children that are `Whole`, and
building it leaves the last one.

**Proved here.**  `setItem_frames_iff`.
-/
import IDeviceStack.Libplist.Dict

namespace IDeviceStack.Libplist

open Lib Cnary List Option

/-! ## Keys -/

/-- The `length` of the key is that of its C string. -/
def Whole (h : PHeap) (b : Binding) : Prop := keyData h b.keyNode = some (b.key, strlen b.key)

instance (h : PHeap) (b : Binding) : Decidable (Whole h b) :=
  inferInstanceAs (Decidable (_ = _))

/-- `dict_key_hash` stays inside the buffer of the key. -/
def Hashable (h : PHeap) (b : Binding) : Prop := ∀ d ∈ keyData h b.keyNode, d.2 ≤ d.1.length + 1

instance (h : PHeap) (b : Binding) : Decidable (Hashable h b) :=
  inferInstanceAs (Decidable (∀ d ∈ keyData h b.keyNode, d.2 ≤ d.1.length + 1))

variable {h : PHeap} {p : Nat} {bs : List Binding} {b : Binding}

theorem keyData_node (hs : DictNodes h p bs) (hb : b ∈ bs) :
    ∃ n, keyData h b.keyNode = some (b.key, n) := by
  obtain ⟨n, hn⟩ := hs.keys b hb
  exact ⟨n, keyData_of_data hn⟩

theorem whole_iff {n : Nat} (hn : keyData h b.keyNode = some (b.key, n)) :
    Whole h b ↔ n = strlen b.key := by
  show keyData h b.keyNode = some (b.key, strlen b.key) ↔ _
  rw [hn, some.injEq, Prod.mk.injEq]
  exact and_iff_right rfl

theorem dictKeyCompare_iff {a b : List UInt8 × Nat} :
    dictKeyCompare a b = true ↔ a.2 = b.2 ∧ cstr a.1 = cstr b.1 := by
  rw [dictKeyCompare, streq]
  by_cases hn : a.2 = b.2 <;> simp [hn]

theorem compareWith_eq (hs : DictNodes h p bs) (hb : b ∈ bs) {x : List UInt8} (hx : NulFree x) :
    compareWith h (x, x.length) b.keyNode = some (decide (Whole h b ∧ cstr b.key = x)) := by
  obtain ⟨n, hn⟩ := keyData_node hs hb
  rw [compareWith, hn, map_some]
  congr 1
  rw [Bool.eq_iff_iff, dictKeyCompare_iff, decide_eq_true_iff, cstr_of_nulFree hx, whole_iff hn]
  refine and_congr_left fun heq => ?_
  rw [strlen, heq]

theorem cstr_append (s : List UInt8) : cstr s ++ s.dropWhile (· ≠ 0) = s :=
  takeWhile_append_dropWhile

theorem strlen_le (s : List UInt8) : strlen s ≤ s.length := by
  have hlen := congrArg List.length (cstr_append s)
  rw [length_append] at hlen
  rw [strlen, ← hlen]
  exact Nat.le_add_right _ _

theorem dictKeyHash_whole (s : List UInt8) : dictKeyHash (s, strlen s) = some (keyHash (cstr s)) := by
  have htake : (s ++ [0]).take (strlen s) = cstr s := by
    rw [take_append_of_le_length (strlen_le s)]
    exact (congrArg (List.take _) (cstr_append s).symm).trans (take_left' rfl)
  rw [dictKeyHash]
  dsimp only
  rw [if_pos ((strlen_le s).trans (Nat.le_succ _)), htake]
  rfl

/-! ## Tables -/

/-- The lookup of a C string in a table. -/
def tableGet (h : PHeap) (T : DictTable) (x : List UInt8) : Option (Option Ref) :=
  hashTableLookup T (keyHash x) (compareWith h (x, x.length))

/-- The keys of the table are keys of the dictionary. -/
def KeysOf (bs : List Binding) (T : DictTable) : Prop :=
  ∀ i, ∀ e ∈ T.entries i, ∃ b ∈ bs, b.keyNode = e.key

theorem chainLookup_congr {κ ν : Type} {cmp cmp' : κ → Option Bool} {es : List (HashEntry κ ν)}
    (heq : ∀ e ∈ es, cmp' e.key = cmp e.key) : chainLookup cmp' es = chainLookup cmp es := by
  induction es with
  | nil => rfl
  | cons e es ih =>
    rw [chainLookup, chainLookup, heq e mem_cons_self, ih fun d hd => heq d (mem_cons_of_mem e hd)]

theorem tableGet_congr {h' : PHeap} {T : DictTable} (hT : KeysOf bs T)
    (hdata : ∀ b ∈ bs, h'.data b.keyNode = h.data b.keyNode) (x : List UInt8) :
    tableGet h' T x = tableGet h T x := by
  refine chainLookup_congr fun e he => ?_
  obtain ⟨b, hb, hbe⟩ := hT _ e he
  rw [compareWith, compareWith, keyData_congr (hbe ▸ hdata b hb)]

theorem chainLookup_isSome {κ ν : Type} {cmp : κ → Option Bool} {es : List (HashEntry κ ν)}
    (hsome : ∀ e ∈ es, (cmp e.key).isSome) : (chainLookup cmp es).isSome := by
  induction es with
  | nil => rfl
  | cons e es ih =>
    obtain ⟨b, hb⟩ := isSome_iff_exists.mp (hsome e mem_cons_self)
    cases b with
    | true => rw [chainLookup_cons_true hb]; rfl
    | false =>
      rw [chainLookup_cons_false hb]
      exact ih fun d hd => hsome d (mem_cons_of_mem e hd)

section Insert

variable {h : PHeap} {p : Nat} {bs : List Binding} {T : DictTable}

theorem compareWith_isSome (hs : DictNodes h p bs) (hT : KeysOf bs T) (key : List UInt8 × Nat)
    {i : Nat} {e : HashEntry Nat Ref} (he : e ∈ T.entries i) :
    (compareWith h key e.key).isSome := by
  obtain ⟨b, hb, hbe⟩ := hT i e he
  obtain ⟨n, hn⟩ := keyData_node hs hb
  rw [compareWith, ← hbe, hn]
  rfl

theorem tableGet_isSome (hs : DictNodes h p bs) (hT : KeysOf bs T) (x : List UInt8) :
    (tableGet h T x).isSome :=
  chainLookup_isSome fun _ he => compareWith_isSome hs hT _ he

theorem dictTableInsert_get (hs : DictNodes h p bs) (hT : KeysOf bs T) {b : Binding} (hb : b ∈ bs)
    (hhash : Hashable h b) (v : Ref) :
    ∃ T', dictTableInsert h T b.keyNode v = some T' ∧ KeysOf bs T' ∧
      (∀ i, ∀ e ∈ T'.entries i, e.value = v ∨ ∃ d ∈ T.entries i, d.value = e.value) ∧
      ∀ x, NulFree x → tableGet h T' x =
        if Whole h b ∧ cstr b.key = x then some (some v) else tableGet h T x := by
  obtain ⟨n, hn⟩ := hs.keys b hb
  have hget : plistGetData h b.keyNode = some (some ⟨.scalar (.key b.key), n⟩) := hn
  have hdata := keyData_of_data hn
  have hle : n ≤ b.key.length + 1 := hhash _ hdata
  obtain ⟨hash, hhasheq⟩ : ∃ hash, dictKeyHash (b.key, n) = some hash := ⟨_, if_pos hle⟩
  obtain ⟨T', hrun, hrest, henter⟩ := hashTableInsert_enters T hash b.keyNode v
    fun e he => compareWith_isSome hs hT (b.key, n) he
  have hself : ∀ {x : List UInt8}, NulFree x → compareWith h (x, x.length) b.keyNode =
      some (decide (Whole h b ∧ cstr b.key = x)) := fun hx => compareWith_eq hs hb hx
  refine ⟨T', ?_, fun i e he => ?_, fun i e he => ?_, fun x hx => ?_⟩
  · simp only [dictTableInsert, hget, hdata, hhasheq, bind_eq_bind, bind_some]
    exact hrun
  · by_cases hi : i = bucket hash
    · subst hi
      rcases henter.keys e he with heq | ⟨d, hd, heq⟩
      · exact ⟨b, hb, heq.symm⟩
      · rw [← heq]
        exact hT _ d hd
    · rw [hrest i hi] at he
      exact hT i e he
  · by_cases hi : i = bucket hash
    · subst hi
      exact henter.values e he
    · rw [hrest i hi] at he
      exact Or.inr ⟨e, he, rfl⟩
  · by_cases hmatch : Whole h b ∧ cstr b.key = x
    · -- the two keys have one hash, and compare alike to all others
      rw [if_pos hmatch]
      have hn' : n = strlen b.key := (whole_iff hdata).mp hmatch.1
      have hsameHash : hash = keyHash x := by
        rw [hn', dictKeyHash_whole, hmatch.2] at hhasheq
        exact (some.inj hhasheq).symm
      rw [tableGet, hashTableLookup, ← hsameHash]
      refine henter.lookup_same ((hself hx).trans (congrArg some (decide_eq_true hmatch))) ?_
      intro e he
      obtain ⟨c, hc, hce⟩ := hT _ e he
      obtain ⟨m, hm⟩ := keyData_node hs hc
      rw [compareWith, compareWith, ← hce, hm, map_some, map_some]
      congr 1
      rw [Bool.eq_iff_iff, dictKeyCompare_iff, dictKeyCompare_iff, hn', strlen, hmatch.2,
        cstr_of_nulFree hx]
    · rw [if_neg hmatch, tableGet, tableGet, hashTableLookup, hashTableLookup]
      by_cases hi : bucket (keyHash x) = bucket hash
      · rw [hi]
        refine henter.lookup_other ((hself hx).trans (congrArg some (decide_eq_false hmatch)))
          (fun e he => compareWith_isSome hs hT _ he) fun e he htrue => ?_
        obtain ⟨c, hc, hce⟩ := hT _ e he
        obtain ⟨m, hm⟩ := keyData_node hs hc
        rw [compareWith, ← hce, hm, map_some, some.injEq, dictKeyCompare_iff] at htrue
        rw [compareWith, ← hce, hm, map_some]
        refine congrArg some (Bool.eq_false_iff.mpr fun htrue' => hmatch ?_)
        rw [dictKeyCompare_iff] at htrue'
        obtain ⟨hlen, heq⟩ := htrue'
        have hbx : cstr b.key = x := by rw [← htrue.2, heq, cstr_of_nulFree hx]
        refine ⟨(whole_iff hdata).mpr ?_, hbx⟩
        rw [strlen, hbx]
        exact htrue.1.symm.trans hlen
      · rw [hrest _ hi]

end Insert

/-! ## Scans, and the table that is built -/

/-- The last child that is whole and reads like `x`. -/
def lastFor (h : PHeap) (x : List UInt8) (bs : List Binding) : Option Binding :=
  bs.reverse.find? fun b => Whole h b ∧ cstr b.key = x

theorem lastFor_cons (h : PHeap) (x : List UInt8) (b : Binding) (bs : List Binding) :
    lastFor h x (b :: bs) =
      (lastFor h x bs).or (if Whole h b ∧ cstr b.key = x then some b else none) := by
  rw [lastFor, reverse_cons, List.find?_append, ← lastFor, List.find?_singleton]
  by_cases hb : Whole h b ∧ cstr b.key = x <;> simp [hb]

section Index

variable {h : PHeap} {p : Nat} {bs : List Binding}

variable {T : DictTable}

theorem indexDict_last (hs : DictNodes h p bs) {todo : List Binding} (hsub : ∀ b ∈ todo, b ∈ bs)
    {b : Ref} (hseg : Seg .node h.links b .null (roots (dictItems todo))) (hT : KeysOf bs T)
    (hhash : ∀ b ∈ todo, Hashable h b) {fuel : Nat} (hfuel : todo.length < fuel) :
    ∃ T', indexDict h fuel (headRef .node (roots (dictItems todo)) .null) T = some T' ∧
      KeysOf bs T' ∧ ∀ x, NulFree x →
        tableGet h T' x = match lastFor h x todo with
          | some b => some (some (.node b.item.1))
          | none => tableGet h T x := by
  induction todo generalizing b T fuel with
  | nil =>
    obtain ⟨fuel, rfl⟩ : ∃ k, fuel = k + 1 := ⟨fuel - 1, by simp at hfuel; omega⟩
    exact ⟨T, rfl, hT, fun x _ => rfl⟩
  | cons c todo ih =>
    rw [length_cons] at hfuel
    obtain ⟨fuel, rfl⟩ : ∃ k, fuel = k + 1 := ⟨fuel - 1, by omega⟩
    obtain ⟨hk, hv, hrest⟩ := dictItems_links hseg
    obtain ⟨T₁, hins, hT1, -, hget1⟩ := dictTableInsert_get hs hT (hsub c mem_cons_self)
      (hhash c mem_cons_self) (.node c.item.1)
    obtain ⟨T', hrun, hT', hget'⟩ := ih (fun d hd => hsub d (mem_cons_of_mem c hd)) hrest hT1
      (fun d hd => hhash d (mem_cons_of_mem c hd)) (show todo.length < fuel by omega)
    refine ⟨T', ?_, hT', fun x hx => ?_⟩
    · simp only [dictItems_cons, roots_cons, headRef_cons, Libplist.indexDict,
        nodeNextSibling_of_links hk, nodeNextSibling_of_links hv, hins, bind_eq_bind, bind_some]
      exact hrun
    · rw [hget' x hx, lastFor_cons]
      cases lastFor h x todo with
      | some d => rfl
      | none =>
        rw [hget1 x hx, none_or]
        by_cases hmatch : Whole h c ∧ cstr c.key = x
        · rw [if_pos hmatch, if_pos hmatch]
        · rw [if_neg hmatch, if_neg hmatch]

theorem dictTableInsert_overrun {b : Binding} (hb : ¬ Hashable h b) (v : Ref) :
    dictTableInsert h T b.keyNode v = none := by
  have hdata : ∃ d, keyData h b.keyNode = some d ∧ ¬ d.2 ≤ d.1.length + 1 := by
    rw [Hashable] at hb
    push Not at hb
    obtain ⟨d, hd, hlt⟩ := hb
    exact ⟨d, hd, Nat.not_le.mpr hlt⟩
  obtain ⟨d, hd, hlt⟩ := hdata
  rw [dictTableInsert]
  cases hget : plistGetData h b.keyNode with
  | none =>
    rw [keyData, hget] at hd
    cases hd
  | some data =>
    cases data with
    | none =>
      rw [keyData, hget] at hd
      cases hd
    | some data =>
      simp only [bind_eq_bind, bind_some, hd, dictKeyHash, if_neg hlt, bind_none]

theorem indexDict_overrun (hs : DictNodes h p bs) {todo : List Binding} (hsub : ∀ b ∈ todo, b ∈ bs)
    {b : Ref} (hseg : Seg .node h.links b .null (roots (dictItems todo))) (hT : KeysOf bs T)
    (hhash : ¬ ∀ b ∈ todo, Hashable h b) {fuel : Nat} (hfuel : todo.length < fuel) :
    indexDict h fuel (headRef .node (roots (dictItems todo)) .null) T = none := by
  induction todo generalizing b T fuel with
  | nil => exact absurd nofun hhash
  | cons c todo ih =>
    rw [length_cons] at hfuel
    obtain ⟨fuel, rfl⟩ : ∃ k, fuel = k + 1 := ⟨fuel - 1, by omega⟩
    obtain ⟨hk, hv, hrest⟩ := dictItems_links hseg
    simp only [dictItems_cons, roots_cons, headRef_cons, Libplist.indexDict,
      nodeNextSibling_of_links hk, bind_eq_bind, bind_some]
    by_cases hc : Hashable h c
    · obtain ⟨T₁, hins, hT1, -, -⟩ :=
        dictTableInsert_get hs hT (hsub c mem_cons_self) hc (.node c.item.1)
      have hrest' : ¬ ∀ b ∈ todo, Hashable h b := by
        intro hall
        refine hhash fun d hd => ?_
        rcases mem_cons.mp hd with rfl | hd
        · exact hc
        · exact hall d hd
      simp only [hins, bind_some, nodeNextSibling_of_links hv]
      exact ih (fun d hd => hsub d (mem_cons_of_mem c hd)) hrest hT1 hrest'
        (show todo.length < fuel by omega)
    · simp only [dictTableInsert_overrun hc, bind_none]

end Index

/-! ## Dictionaries -/

/-- The table has keys of the dictionary, and leads to whole children that read like the key. -/
structure TableServes (h : PHeap) (bs : List Binding) (T : DictTable) : Prop where
  keys : KeysOf bs T
  answers : ∀ x, NulFree x → ∀ v, tableGet h T x = some (some v) →
    ∃ b ∈ bs, v = .node b.item.1 ∧ Whole h b ∧ cstr b.key = x

/-- Node `p` is a dictionary with the children `bs`, and with the table `ht` if there is one. -/
structure Dictionary (h : PHeap) (p : Nat) (bs : List Binding) (ht : Option DictTable) : Prop where
  nodes : DictNodes h p bs
  data : ∃ len, h.data p = some (some ⟨.dict ht, len⟩)
  table : ∀ T, ht = some T → TableServes h bs T

theorem getItem_scan {len : Nat} {first : Ref} (hdata : h.data p = some (some ⟨.dict none, len⟩))
    (hc : Children h p first (roots (dictItems bs)))
    (hkeys : ∀ b ∈ bs, ∃ n, h.data b.keyNode = some (some ⟨.scalar (.key b.key), n⟩))
    {x : List UInt8} (hx : NulFree x) :
    plistDictGetItem h p x = some ((itemRef (firstFor x bs)).getD .null) := by
  have hget : plistGetData h p = some (some ⟨.dict none, len⟩) := hdata
  have htype : plistGetNodeType h p = some .dict := plistGetNodeType_of_data hdata
  obtain ⟨np, hp, hlist⟩ := cell_of_list hc.list
  have hfirst : nodeFirstChild h p = some (headRef .node (roots (dictItems bs)) .null) := by
    simp [nodeFirstChild, hp, hlist]
  have hlen := hc.toChain.length_lt
  rw [roots, length_map, length_dictItems] at hlen
  simp only [plistDictGetItem, htype, dictHashtable, hget, bind_eq_bind, bind_some, if_true, hfirst]
  exact scanDict_first hx hc.seg hkeys (by omega)

/-- The item that is found under `x`. -/
def found (h : PHeap) (bs : List Binding) (ht : Option DictTable) (x : List UInt8) : Option Ref :=
  match ht with
  | none => itemRef (firstFor x bs)
  | some T => (tableGet h T x).getD none

section Dictionary

variable {h : PHeap} {p : Nat} {bs : List Binding} {ht : Option DictTable}

theorem Dictionary.getItem (hd : Dictionary h p bs ht) {x : List UInt8} (hx : NulFree x) :
    plistDictGetItem h p x = some ((found h bs ht x).getD .null) := by
  obtain ⟨len, hdata⟩ := hd.data
  have hs := hd.nodes
  cases ht with
  | none => exact getItem_scan hdata hs.holds.children hs.keys hx
  | some T =>
    have hget : plistGetData h p = some (some ⟨.dict (some T), len⟩) := hdata
    have htype : plistGetNodeType h p = some .dict := plistGetNodeType_of_data hdata
    obtain ⟨v, hv⟩ := isSome_iff_exists.mp (tableGet_isSome hs (hd.table T rfl).keys x)
    have hlook : hashTableLookup T (keyHash x) (compareWith h (x, x.length)) = some v := hv
    simp only [plistDictGetItem, htype, dictHashtable, hget, bind_eq_bind, bind_some,
      if_true, strlen_of_nulFree hx, dictKeyHash_eq, hlook, found, hv, getD_some]

theorem Dictionary.found_item (hd : Dictionary h p bs ht) {x : List UInt8} (hx : NulFree x) {v : Ref}
    (hv : found h bs ht x = some v) : ∃ l b r, bs = l ++ b :: r ∧ v = .node b.item.1 ∧
      cstr b.key = x ∧ (ht.isSome → Whole h b) ∧ (ht = none → ∀ c ∈ l, cstr c.key ≠ x) := by
  cases ht with
  | none =>
    obtain ⟨b, hb, rfl⟩ := map_eq_some_iff.mp hv
    obtain ⟨hkey, l, r, rfl, hl⟩ := List.find?_eq_some_iff_append.mp hb
    refine ⟨l, b, r, rfl, rfl, of_decide_eq_true hkey, nofun, fun _ c hc => ?_⟩
    simpa using hl c hc
  | some T =>
    have hT := hd.table T rfl
    obtain ⟨o, ho⟩ := isSome_iff_exists.mp (tableGet_isSome hd.nodes hT.keys x)
    rw [found, ho, getD_some] at hv
    subst hv
    obtain ⟨b, hb, rfl, hwhole, hkey⟩ := hT.answers x hx v ho
    obtain ⟨l, r, rfl⟩ := append_of_mem hb
    exact ⟨l, b, r, rfl, rfl, hkey, fun _ => hwhole, nofun⟩

end Dictionary

/-! ## `plist_dict_set_item` -/

section Set

variable {h : PHeap} {p : Nat} {bs : List Binding} {ht : Option DictTable} {key : List UInt8}
  {t : Item}

/-- The children after a set: the item is in the place of the one that was found, or comes last
with a new key. -/
inductive Placed (h : PHeap) (key : List UInt8) (t : Item) (ht : Option DictTable) :
    List Binding → List Binding → Binding → Prop
  | present (l r : List Binding) (b : Binding) :
      found h (l ++ b :: r) ht key = some (.node b.item.1) →
      cstr b.key = key → (ht.isSome → Whole h b) → (ht = none → ∀ c ∈ l, cstr c.key ≠ key) →
      Placed h key t ht (l ++ b :: r) (l ++ { b with item := t } :: r) { b with item := t }
  | absent (bs : List Binding) : found h bs ht key = none →
      Placed h key t ht bs (bs ++ [⟨h.top, key, t⟩]) ⟨h.top, key, t⟩

theorem Dictionary.place (hd : Dictionary h p bs ht) (hkey : NulFree key)
    (hloose : Loose h p (dictItems bs) t) :
    ∃ h₂ bs₂ b₂, dictPlace h p key t.1 = some (h₂, b₂.keyNode) ∧ Placed h key t ht bs bs₂ b₂ ∧
      DictNodes h₂ p bs₂ ∧ (∀ c ∈ bs, h₂.data c.keyNode = h.data c.keyNode) ∧
      (b₂.keyNode = h.top → Whole h₂ b₂) ∧ h₂.data p = h.data p := by
  have hget := hd.getItem hkey
  cases hfound : found h bs ht key with
  | none =>
    rw [hfound] at hget
    obtain ⟨h1, h₂, hatt1, hatt2, hn, hkeys, hkeyTop, hdp⟩ := hd.nodes.place_absent hkey hloose
    have hwhole : Whole h₂ ⟨h.top, key, t⟩ := by
      refine (whole_iff (keyData_of_data hkeyTop)).mpr ?_
      rw [strlen_of_nulFree hkey]
    refine ⟨h₂, _, _, ?_, .absent bs hfound, hn, hkeys, fun _ => hwhole, hdp⟩
    have hnew : plistNewKey h key = (h.top, (plistNewKey h key).2) := rfl
    simp only [dictPlace, hget, bind_eq_bind, bind_some, getD_none]
    rw [hnew]
    simp only [hatt1, hatt2, bind_some]
  | some v =>
    rw [hfound] at hget
    obtain ⟨l, b, r, rfl, rfl, hbkey, hwhole, hfirst⟩ := hd.found_item hkey hfound
    obtain ⟨h1, h₂, hfree, hins, hprev, hn, hkeys, hdp⟩ := hd.nodes.place_present hloose
    refine ⟨h₂, _, _, ?_, .present l r b hfound hbkey hwhole hfirst, hn, hkeys, fun htop => ?_,
      hdp⟩
    · simp only [dictPlace, hget, hfree, putBack, hins, hprev, bind_eq_bind, bind_some, getD_some]
    · have hb : b ∈ l ++ b :: r := by simp
      have hmem : b.keyNode ∈ foot (dictItems (l ++ b :: r)) := mem_dictItems_key hb
      exact absurd htop (hd.nodes.ne_top _ (mem_cons_of_mem p hmem))

variable {h₂ : PHeap}

theorem setItem_eq (hd : Dictionary h p bs ht) {k : Nat}
    (hplace : dictPlace h p key t.1 = some (h₂, k)) :
    plistDictSetItem h p key t.1 = dictIndex h₂ p k t.1 := by
  obtain ⟨len, hdata⟩ := hd.data
  simp only [plistDictSetItem, plistGetNodeType_of_data hdata, PlistData.type, bind_eq_bind,
    bind_some, if_true, hplace]

section Placed

variable {bs₂ : List Binding} {b₂ : Binding}

theorem Placed.mem (hp : Placed h key t ht bs bs₂ b₂) : b₂ ∈ bs₂ := by
  cases hp <;> simp

theorem Placed.item (hp : Placed h key t ht bs bs₂ b₂) : b₂.item = t := by
  cases hp <;> rfl

theorem Placed.reads (hkey : NulFree key) (hp : Placed h key t ht bs bs₂ b₂) : cstr b₂.key = key := by
  cases hp with
  | present l r b _ hk => exact hk
  | absent _ _ => exact cstr_of_nulFree hkey

theorem Placed.kept (hp : Placed h key t ht bs bs₂ b₂) {b : Binding} (hb : b ∈ bs)
    (hne : cstr b.key ≠ key) : b ∈ bs₂ := by
  cases hp with
  | present l r c _ hk =>
    simp only [mem_append, mem_cons] at hb ⊢
    rcases hb with hb | rfl | hb
    · exact Or.inl hb
    · exact absurd hk hne
    · exact Or.inr (Or.inr hb)
  | absent _ _ => exact mem_append_left _ hb

theorem Placed.keysOf (hp : Placed h key t ht bs bs₂ b₂) {T : DictTable} (hT : KeysOf bs T) :
    KeysOf bs₂ T := by
  intro i e he
  obtain ⟨b, hb, hbe⟩ := hT i e he
  cases hp with
  | present l r c =>
    obtain ⟨d, hd, hkn, -⟩ := (mem_replace (t := t)).2 hb
    exact ⟨d, hd, hkn.symm.trans hbe⟩
  | absent _ _ => exact ⟨b, mem_append_left _ hb, hbe⟩

theorem Placed.scan (hkey : NulFree key) (hp : Placed h key t none bs bs₂ b₂) (x : List UInt8) :
    itemRef (firstFor x bs₂) = if x = key then some (.node t.1) else itemRef (firstFor x bs) := by
  cases hp with
  | present l r b _ hk _ hfirst =>
    rw [firstFor, List.find?_append, List.find?_cons]
    by_cases hx : x = key
    · subst hx
      have hnone : l.find? (fun b => cstr b.key = x) = none :=
        List.find?_eq_none.mpr fun c hc => by simpa using hfirst rfl c hc
      rw [if_pos rfl, hnone, none_or]
      simp [hk, itemRef]
    · rw [if_neg hx, firstFor, List.find?_append, List.find?_cons]
      have hne : ¬ cstr b.key = x := fun h => hx (h.symm.trans hk)
      simp [hne]
  | absent _ hfound =>
    rw [firstFor, List.find?_append]
    by_cases hx : x = key
    · subst hx
      have hnone : firstFor x bs = none := map_eq_none_iff.mp hfound
      rw [firstFor] at hnone
      rw [hnone, if_pos rfl, none_or, List.find?_singleton]
      simp [cstr_of_nulFree hkey, itemRef]
    · have hne : ¬ cstr key = x := fun h => hx (h.symm.trans (cstr_of_nulFree hkey))
      rw [if_neg hx, List.find?_singleton]
      simp [hne, firstFor]

end Placed

variable {h' : PHeap} {b : Binding}

theorem whole_congr {h : PHeap} (hdata : h'.data b.keyNode = h.data b.keyNode) :
    Whole h' b ↔ Whole h b := by
  rw [Whole, Whole, keyData_congr hdata]

theorem hashable_congr {h : PHeap} (hdata : h'.data b.keyNode = h.data b.keyNode) :
    Hashable h' b ↔ Hashable h b := by
  rw [Hashable, Hashable, keyData_congr hdata]

theorem Whole.hashable (hb : Whole h b) : Hashable h b := by
  intro d hd
  rw [Whole] at hb
  rw [hb] at hd
  cases hd
  exact (strlen_le b.key).trans (Nat.le_succ _)

theorem DictNodes.storeTable (hs : DictNodes h p bs) {len : Nat}
    (hdata : h.data p = some (some ⟨.dict ht, len⟩)) {T : DictTable} (hT : KeysOf bs T) :
    ∃ h', Libplist.setHashtable h p (some T) = some h' ∧ DictNodes h' p bs ∧
      h'.data p = some (some ⟨.dict (some T), len⟩) ∧
      (∀ b ∈ bs, h'.data b.keyNode = h.data b.keyNode) ∧ ∀ x, tableGet h' T x = tableGet h T x := by
  obtain ⟨h', hset, hn, hd', hcells, -⟩ := hs.setHashtable hdata (some T)
  have hkeys : ∀ b ∈ bs, h'.data b.keyNode = h.data b.keyNode := by
    intro b hb
    rw [Heap.data, hcells]
    · rfl
    · rintro rfl
      exact (nodup_cons.mp hs.holds.nodup).1 (mem_dictItems_key hb)
  exact ⟨h', hset, hn, hd', hkeys, tableGet_congr hT hkeys⟩

theorem Dictionary.set_table {T : DictTable} (hd : Dictionary h p bs (some T)) (hkey : NulFree key)
    (hloose : Loose h p (dictItems bs) t) :
    ∃ h' bs' T', plistDictSetItem h p key t.1 = some h' ∧ Dictionary h' p bs' (some T') ∧
      ∀ x, NulFree x → found h' bs' (some T') x =
        if x = key then some (.node t.1) else found h bs (some T) x := by
  obtain ⟨h₂, bs₂, b₂, hplace, hp, hn, hkeys, hnew, hdp⟩ := hd.place hkey hloose
  obtain ⟨len, hdata⟩ := hd.data
  have hT := hd.table T rfl
  have hdata2 : h₂.data p = some (some ⟨.dict (some T), len⟩) := hdp.trans hdata
  have hget2 : plistGetData h₂ p = some (some ⟨.dict (some T), len⟩) := hdata2
  have hwhole : Whole h₂ b₂ := by
    cases hp with
    | present l r b _ _ hw _ =>
      have hb : b ∈ l ++ b :: r := by simp
      exact (whole_congr (hkeys b hb)).mpr (hw rfl)
    | absent _ _ => exact hnew rfl
  obtain ⟨T', hins, hT', -, hget⟩ :=
    dictTableInsert_get hn (hp.keysOf hT.keys) hp.mem hwhole.hashable (.node t.1)
  obtain ⟨h', hset, hn', hd', hkeys', hsame⟩ := hn.storeTable hdata2 hT'
  have hlook : ∀ x, NulFree x → tableGet h' T' x =
      if x = key then some (some (.node t.1)) else tableGet h T x := by
    intro x hx
    rw [hsame x, hget x hx, hp.reads hkey]
    by_cases hxk : x = key
    · rw [if_pos ⟨hwhole, hxk.symm⟩, if_pos hxk]
    · rw [if_neg fun h => hxk h.2.symm, if_neg hxk]
      exact tableGet_congr hT.keys hkeys x
  refine ⟨h', bs₂, T', ?_, ⟨hn', ⟨len, hd'⟩, ?_⟩, fun x hx => ?_⟩
  · rw [setItem_eq hd hplace]
    simp only [dictIndex, dictHashtable, hget2, bind_eq_bind, bind_some, hins, hset]
  · rintro _ ⟨⟩
    refine ⟨hT', fun x hx v hv => ?_⟩
    rw [hlook x hx] at hv
    by_cases hxk : x = key
    · rw [if_pos hxk] at hv
      cases hv
      refine ⟨b₂, hp.mem, ?_, (whole_congr (hkeys' b₂ hp.mem)).mpr hwhole, ?_⟩
      · rw [hp.item]
      · rw [hp.reads hkey, hxk]
    · rw [if_neg hxk] at hv
      obtain ⟨b, hb, rfl, hbw, hbx⟩ := hT.answers x hx v hv
      have hb2 := hp.kept hb fun h => hxk (hbx.symm.trans h)
      refine ⟨b, hb2, rfl, (whole_congr (hkeys' b hb2)).mpr ?_, hbx⟩
      exact (whole_congr (hkeys b hb)).mpr hbw
  · rw [found, found, hlook x hx]
    by_cases hxk : x = key
    · rw [if_pos hxk, if_pos hxk]
      rfl
    · rw [if_neg hxk, if_neg hxk]

/-- The set leaves more than 500 children. -/
def Crosses (bs : List Binding) (key : List UInt8) : Prop :=
  2 * bs.length + (if (firstFor key bs).isSome then 0 else 2) > 500

instance (bs : List Binding) (key : List UInt8) : Decidable (Crosses bs key) :=
  inferInstanceAs (Decidable (_ > _))

variable {bs₂ : List Binding}

theorem Placed.crosses {b₂ : Binding} (hp : Placed h key t none bs bs₂ b₂) :
    Crosses bs key ↔ 2 * bs₂.length > 500 := by
  rw [Crosses]
  cases hp with
  | present l r b hfound _ _ _ =>
    have hsome : (firstFor key (l ++ b :: r)).isSome := by
      cases hf : firstFor key (l ++ b :: r) with
      | none => rw [found, hf] at hfound; cases hfound
      | some c => rfl
    rw [if_pos hsome]
    simp
  | absent _ hfound =>
    have hnone : firstFor key bs = none := map_eq_none_iff.mp hfound
    rw [hnone]
    simp [Nat.mul_add]

theorem Dictionary.set_scan (hd : Dictionary h p bs none) (hkey : NulFree key)
    (hloose : Loose h p (dictItems bs) t) (hsmall : ¬ Crosses bs key) :
    ∃ h' bs', plistDictSetItem h p key t.1 = some h' ∧ Dictionary h' p bs' none ∧
      ∀ x, found h' bs' none x = if x = key then some (.node t.1) else found h bs none x := by
  obtain ⟨h₂, bs₂, b₂, hplace, hp, hn, hkeys, hnew, hdp⟩ := hd.place hkey hloose
  obtain ⟨len, hdata⟩ := hd.data
  have hget2 : plistGetData h₂ p = some (some ⟨.dict none, len⟩) := hdp.trans hdata
  have hcount : nodeNChildren h₂ p = some (2 * bs₂.length) := by
    have hc := hn.holds.children.count
    rw [roots, length_map, length_dictItems] at hc
    exact hc
  rw [hp.crosses] at hsmall
  refine ⟨h₂, bs₂, ?_, ⟨hn, ⟨len, hdp.trans hdata⟩, fun T h => by cases h⟩,
    fun x => hp.scan hkey x⟩
  rw [setItem_eq hd hplace]
  simp only [dictIndex, dictHashtable, hget2, hcount, if_neg hsmall, bind_eq_bind, bind_some]

theorem Dictionary.set_builds (hd : Dictionary h p bs none) (hkey : NulFree key)
    (hloose : Loose h p (dictItems bs) t) (hbig : Crosses bs key) :
    ∃ h₂ bs₂ b₂, Placed h key t none bs bs₂ b₂ ∧ DictNodes h₂ p bs₂ ∧
      (∀ c ∈ bs, h₂.data c.keyNode = h.data c.keyNode) ∧ (b₂.keyNode = h.top → Whole h₂ b₂) ∧
      ((∀ b ∈ bs₂, Hashable h₂ b) → ∃ h' T', plistDictSetItem h p key t.1 = some h' ∧
        Dictionary h' p bs₂ (some T') ∧
        ∀ x, NulFree x → found h' bs₂ (some T') x = itemRef (lastFor h₂ x bs₂)) ∧
      ((¬ ∀ b ∈ bs₂, Hashable h₂ b) → plistDictSetItem h p key t.1 = none) := by
  obtain ⟨h₂, bs₂, b₂, hplace, hp, hn, hkeys, hnew, hdp⟩ := hd.place hkey hloose
  obtain ⟨len, hdata⟩ := hd.data
  have hdata2 : h₂.data p = some (some ⟨.dict none, len⟩) := hdp.trans hdata
  have hget2 : plistGetData h₂ p = some (some ⟨.dict none, len⟩) := hdata2
  have hcount : nodeNChildren h₂ p = some (2 * bs₂.length) := by
    have hc := hn.holds.children.count
    rw [roots, length_map, length_dictItems] at hc
    exact hc
  obtain ⟨np, hcell, hlist⟩ := cell_of_list hn.holds.children.list
  have hfirst : nodeFirstChild h₂ p = some (headRef .node (roots (dictItems bs₂)) .null) := by
    simp [nodeFirstChild, hcell, hlist]
  have hlen := hn.holds.children.toChain.length_lt
  rw [roots, length_map, length_dictItems] at hlen
  rw [hp.crosses] at hbig
  have hempty : KeysOf bs₂ hashTableNew := fun i e he => by cases he
  refine ⟨h₂, bs₂, b₂, hp, hn, hkeys, hnew, fun hhash => ?_, fun hover => ?_⟩
  · obtain ⟨T', hrun, hT', hget⟩ := indexDict_last hn (fun _ hb => hb) hn.holds.children.seg hempty
      hhash (show bs₂.length < h₂.top + 1 by omega)
    obtain ⟨h', hset, hn', hd', hkeys', hsame⟩ := hn.storeTable hdata2 hT'
    have hlook : ∀ x, NulFree x →
        tableGet h' T' x = some (itemRef (lastFor h₂ x bs₂)) := by
      intro x hx
      rw [hsame x, hget x hx]
      cases lastFor h₂ x bs₂ with
      | none => rfl
      | some b => rfl
    refine ⟨h', T', ?_, ⟨hn', ⟨len, hd'⟩, ?_⟩, fun x hx => by rw [found, hlook x hx]; rfl⟩
    · rw [setItem_eq hd hplace]
      simp only [dictIndex, dictHashtable, hget2, hcount, hfirst, hrun, hset, if_pos hbig,
        bind_eq_bind, bind_some]
    · rintro _ ⟨⟩
      refine ⟨hT', fun x hx v hv => ?_⟩
      rw [hlook x hx, some.injEq] at hv
      obtain ⟨b, hb, rfl⟩ := map_eq_some_iff.mp hv
      have hfind : bs₂.reverse.find? (fun b => decide (Whole h₂ b ∧ cstr b.key = x)) = some b := hb
      have hmem := mem_reverse.mp (mem_of_find?_eq_some hfind)
      have hmatch := List.find?_some hfind
      have hspec := of_decide_eq_true hmatch
      exact ⟨b, hmem, rfl, (whole_congr (hkeys' b hmem)).mpr hspec.1, hspec.2⟩
  · rw [setItem_eq hd hplace]
    have hnone := indexDict_overrun hn (fun _ hb => hb) hn.holds.children.seg hempty hover
      (show bs₂.length < h₂.top + 1 by omega)
    simp only [dictIndex, dictHashtable, hget2, hcount, hfirst, hnone, if_pos hbig,
      bind_eq_bind, bind_some, bind_none]

/-! ## When the first is the last -/

/-- Of the children that read alike the first is whole and no other is, and every hash stays
inside its key. -/
structure Settled (h : PHeap) (bs : List Binding) : Prop where
  hashable : ∀ b ∈ bs, Hashable h b
  once : ∀ x b rest, bs.filter (fun b => cstr b.key = x) = b :: rest →
    Whole h b ∧ ∀ c ∈ rest, ¬ Whole h c

theorem DictNodes.items_nodup (hs : DictNodes h p bs) : (bs.map fun b => b.item.1).Nodup := by
  have hnd := (nodup_cons.mp hs.holds.children.toChain.nodup).2
  refine hnd.sublist ?_
  clear hs hnd
  induction bs with
  | nil => exact List.Sublist.refl _
  | cons b bs ih =>
    rw [dictItems_cons, roots_cons, roots_cons, map_cons]
    exact (ih.cons_cons b.item.1).cons b.keyNode

theorem last_eq_first_iff (hs : DictNodes h p bs) (x : List UInt8) :
    itemRef (lastFor h x bs) = itemRef (firstFor x bs) ↔
      ∀ b rest, bs.filter (fun b => cstr b.key = x) = b :: rest →
        Whole h b ∧ ∀ c ∈ rest, ¬ Whole h c := by
  have hfirst : firstFor x bs = (bs.filter fun b => cstr b.key = x).head? :=
    List.head?_filter.symm
  have hlast : lastFor h x bs =
      ((bs.filter fun b => cstr b.key = x).filter fun b => Whole h b).getLast? := by
    rw [lastFor, ← List.head?_filter, List.filter_reverse, List.head?_reverse, List.filter_filter]
    simp only [Bool.decide_and]
  have hnd : ((bs.filter fun b => cstr b.key = x).map fun b => b.item.1).Nodup :=
    hs.items_nodup.sublist (filter_sublist.map _)
  rw [hfirst, hlast]
  cases hF : bs.filter fun b => cstr b.key = x with
  | nil => exact ⟨fun _ b rest h => (nomatch h), fun _ => rfl⟩
  | cons b rest =>
    rw [hF, map_cons, nodup_cons] at hnd
    have hout : ∀ c ∈ rest, c.item.1 ≠ b.item.1 := fun c hc heq =>
      hnd.1 (heq ▸ mem_map_of_mem (f := fun b : Binding => b.item.1) hc)
    rw [List.head?_cons]
    constructor
    · intro heq b' rest' hcons
      obtain ⟨rfl, rfl⟩ := List.cons.inj hcons
      -- the last whole one is `b`, and nothing whole comes after it
      obtain ⟨c, hc, hcb⟩ := map_eq_some_iff.mp heq
      have hroot : c.item.1 = b.item.1 := Ref.node.inj hcb
      have hnone : rest.filter (fun b => Whole h b) = [] := by
        by_contra hne
        have hsplit : (b :: rest).filter (fun b => Whole h b) =
            [b].filter (fun b => Whole h b) ++ rest.filter (fun b => Whole h b) :=
          filter_append [b] rest
        rw [hsplit, List.getLast?_append, List.getLast?_eq_some_getLast hne, some_or,
          some.injEq] at hc
        have hmem := mem_of_mem_filter (hc ▸ getLast_mem hne)
        exact hout c hmem hroot
      have hwhole : ∀ d ∈ rest, ¬ Whole h d := by
        intro d hd hw
        have hmem : d ∈ rest.filter (fun b => Whole h b) :=
          mem_filter.mpr ⟨hd, decide_eq_true hw⟩
        rw [hnone] at hmem
        cases hmem
      refine ⟨?_, hwhole⟩
      by_contra hb
      rw [filter_cons_of_neg (by simpa using hb), hnone] at hc
      cases hc
    · intro honce
      obtain ⟨hb, hrest⟩ := honce b rest rfl
      have hnone : rest.filter (fun b => Whole h b) = [] :=
        filter_eq_nil_iff.mpr fun c hc => by simpa using hrest c hc
      rw [filter_cons_of_pos (by simpa using hb), hnone]
      rfl

theorem once_congr (x : List UInt8)
    (halike : (bs₂.filter fun b => cstr b.key = x).map (fun b => decide (Whole h₂ b)) =
      (bs.filter fun b => cstr b.key = x).map fun b => decide (Whole h b)) :
    (∀ b rest, bs₂.filter (fun b => cstr b.key = x) = b :: rest →
        Whole h₂ b ∧ ∀ c ∈ rest, ¬ Whole h₂ c) ↔
      ∀ b rest, bs.filter (fun b => cstr b.key = x) = b :: rest →
        Whole h b ∧ ∀ c ∈ rest, ¬ Whole h c := by
  have hbools : ∀ (h : PHeap) (l : List Binding),
      (∀ b rest, l = b :: rest → Whole h b ∧ ∀ c ∈ rest, ¬ Whole h c) ↔
        ∀ w ws, l.map (fun b => decide (Whole h b)) = w :: ws → w = true ∧ ∀ v ∈ ws, v = false := by
    intro h l
    cases l with
    | nil => exact ⟨fun _ w ws h => (nomatch h), fun _ b rest h => (nomatch h)⟩
    | cons b rest =>
      constructor
      · rintro hw w ws hcons
        obtain ⟨rfl, rfl⟩ := List.cons.inj hcons
        obtain ⟨hb, hrest⟩ := hw b rest rfl
        refine ⟨decide_eq_true hb, fun v hv => ?_⟩
        obtain ⟨c, hc, rfl⟩ := mem_map.mp hv
        exact decide_eq_false (hrest c hc)
      · rintro hw b' rest' hcons
        obtain ⟨rfl, rfl⟩ := List.cons.inj hcons
        obtain ⟨hb, hrest⟩ := hw _ _ rfl
        refine ⟨of_decide_eq_true hb, fun c hc => ?_⟩
        exact of_decide_eq_false (hrest _ (mem_map_of_mem hc))
  rw [hbools, hbools, halike]

theorem Placed.settled {b₂ : Binding} (hkey : NulFree key) (hp : Placed h key t none bs bs₂ b₂)
    (hkeys : ∀ c ∈ bs, h₂.data c.keyNode = h.data c.keyNode)
    (hnew : b₂.keyNode = h.top → Whole h₂ b₂) : Settled h₂ bs₂ ↔ Settled h bs := by
  have hwhole : ∀ c ∈ bs, decide (Whole h₂ c) = decide (Whole h c) := fun c hc =>
    decide_eq_decide.mpr (whole_congr (hkeys c hc))
  cases hp with
  | present l r b _ _ _ _ =>
    have hbw : decide (Whole h₂ { b with item := t }) = decide (Whole h b) :=
      hwhole b (by simp)
    have halike : ∀ x : List UInt8,
        ((l ++ { b with item := t } :: r).filter fun b => cstr b.key = x).map
            (fun b => decide (Whole h₂ b)) =
          ((l ++ b :: r).filter fun b => cstr b.key = x).map fun b => decide (Whole h b) := by
      intro x
      have hpart : ∀ m : List Binding, (∀ c ∈ m, c ∈ l ++ b :: r) →
          (m.filter fun b => cstr b.key = x).map (fun b => decide (Whole h₂ b)) =
            (m.filter fun b => cstr b.key = x).map fun b => decide (Whole h b) := fun m hm =>
        map_congr_left fun c hc => hwhole c (hm c (mem_of_mem_filter hc))
      rw [filter_append, filter_append, map_append, map_append,
        hpart l fun c hc => mem_append_left _ hc, filter_cons, filter_cons]
      have hr := hpart r fun c hc => mem_append_right l (mem_cons_of_mem b hc)
      by_cases hx : cstr b.key = x
      · rw [if_pos (decide_eq_true hx), if_pos (decide_eq_true hx), map_cons, map_cons, hbw, hr]
      · rw [if_neg (by simpa using hx), if_neg (by simpa using hx), hr]
    refine ⟨fun hs => ⟨fun c hc => ?_, fun x => (once_congr x (halike x)).mp (hs.once x)⟩,
      fun hs => ⟨fun c hc => ?_, fun x => (once_congr x (halike x)).mpr (hs.once x)⟩⟩
    · obtain ⟨d, hd, hkn, -⟩ := (mem_replace (t := t)).2 hc
      have hd' := hs.hashable d hd
      rw [Hashable, ← hkn, keyData_congr (hkeys c hc)] at hd'
      exact hd'
    · obtain ⟨d, hd, hkn, -⟩ := mem_replace.1 hc
      have hd' := hs.hashable d hd
      rw [Hashable, ← keyData_congr (hkeys d hd), ← hkn] at hd'
      exact hd'
  | absent _ hfound =>
    have hnone : ∀ c ∈ bs, cstr c.key ≠ key := by
      intro c hc
      have := List.find?_eq_none.mp (map_eq_none_iff.mp hfound) c hc
      simpa using this
    have hnewWhole := hnew rfl
    have hkx := cstr_of_nulFree hkey
    have hbs : ∀ x, (∀ b rest, bs.filter (fun b => cstr b.key = x) = b :: rest →
          Whole h₂ b ∧ ∀ c ∈ rest, ¬ Whole h₂ c) ↔
        ∀ b rest, bs.filter (fun b => cstr b.key = x) = b :: rest →
          Whole h b ∧ ∀ c ∈ rest, ¬ Whole h c := fun x =>
      once_congr x (map_congr_left fun c hc => hwhole c (mem_of_mem_filter hc))
    have honce : ∀ x, (∀ b rest,
          (bs ++ [Binding.mk h.top key t]).filter (fun b => cstr b.key = x) = b :: rest →
            Whole h₂ b ∧ ∀ c ∈ rest, ¬ Whole h₂ c) ↔
        ∀ b rest, bs.filter (fun b => cstr b.key = x) = b :: rest →
          Whole h b ∧ ∀ c ∈ rest, ¬ Whole h c := by
      intro x
      rw [← hbs x, filter_append]
      by_cases hx : x = key
      · subst hx
        have hempty : bs.filter (fun b => cstr b.key = x) = [] :=
          filter_eq_nil_iff.mpr fun c hc => by simpa using hnone c hc
        rw [hempty, nil_append, filter_cons_of_pos (by simpa using hkx), filter_nil]
        refine ⟨fun _ b rest h => (nomatch h), fun _ b rest hcons => ?_⟩
        obtain ⟨rfl, rfl⟩ := List.cons.inj hcons
        exact ⟨hnewWhole, nofun⟩
      · have hne : ¬ cstr key = x := fun h => hx (h.symm.trans hkx)
        rw [filter_cons_of_neg (by simpa using hne), filter_nil, append_nil]
    refine ⟨fun hs => ⟨fun c hc => ?_, fun x => (honce x).mp (hs.once x)⟩,
      fun hs => ⟨fun c hc => ?_, fun x => (honce x).mpr (hs.once x)⟩⟩
    · exact (hashable_congr (hkeys c hc)).mp (hs.hashable c (mem_append_left _ hc))
    · rcases mem_append.mp hc with hc | hc
      · exact (hashable_congr (hkeys c hc)).mpr (hs.hashable c hc)
      · rw [mem_singleton.mp hc]
        exact hnewWhole.hashable

/-! ## What a set leaves alone -/

/-- The set is done, its item is found under its key, and every other lookup is what it was. -/
def SetFrames (h : PHeap) (p : Nat) (key : List UInt8) (item : Nat) : Prop :=
  ∃ h', plistDictSetItem h p key item = some h' ∧
    plistDictGetItem h' p key = some (.node item) ∧
    ∀ key', NulFree key' → key' ≠ key → plistDictGetItem h' p key' = plistDictGetItem h p key'

theorem Dictionary.frames {bs' : List Binding} {ht' : Option DictTable}
    (hd : Dictionary h p bs ht) (hd' : Dictionary h' p bs' ht') (hkey : NulFree key)
    (hrun : plistDictSetItem h p key t.1 = some h')
    (hfound : ∀ x, NulFree x →
      found h' bs' ht' x = if x = key then some (.node t.1) else found h bs ht x) :
    SetFrames h p key t.1 := by
  refine ⟨h', hrun, ?_, fun x hx hne => ?_⟩
  · rw [hd'.getItem hkey, hfound key hkey, if_pos rfl]
    rfl
  · rw [hd'.getItem hx, hfound x hx, if_neg hne, hd.getItem hx]

/-- When a set makes the table, it leaves the other lookups alone exactly if every key that comes
first is whole and no whole key comes after one that reads alike. -/
theorem Dictionary.frames_builds_iff (hd : Dictionary h p bs none) (hkey : NulFree key)
    (hloose : Loose h p (dictItems bs) t) (hbig : Crosses bs key) :
    SetFrames h p key t.1 ↔ Settled h bs := by
  obtain ⟨h₂, bs₂, b₂, hp, hn, hkeys, hnew, hdone, hover⟩ := hd.set_builds hkey hloose hbig
  rw [← hp.settled hkey hkeys hnew]
  by_cases hhash : ∀ b ∈ bs₂, Hashable h₂ b
  · obtain ⟨h', T', hrun, hd', hfound⟩ := hdone hhash
    constructor
    · rintro ⟨h'', hrun', hself, hothers⟩
      obtain rfl : h'' = h' := some.inj (hrun'.symm.trans hrun)
      refine ⟨hhash, fun x => (last_eq_first_iff hn x).mp ?_⟩
      by_cases hx : NulFree x
      · have hget : plistDictGetItem h'' p x =
            some ((if x = key then some (.node t.1) else found h bs none x).getD .null) := by
          by_cases hxk : x = key
          · rw [if_pos hxk, hxk]
            exact hself
          · rw [if_neg hxk, hothers x hx hxk]
            exact hd.getItem hx
        rw [hd'.getItem hx, hfound x hx, some.injEq] at hget
        rw [hp.scan hkey x]
        -- an item is not `NULL`, so what is found is told by the pointer
        have hinj : ∀ o o' : Option Ref, (∀ r ∈ o, r ≠ .null) → (∀ r ∈ o', r ≠ .null) →
            o.getD .null = o'.getD .null → o = o' := by
          rintro (_ | r) (_ | r') ho ho' heq
          · rfl
          · exact absurd heq.symm (ho' r' rfl)
          · exact absurd heq (ho r rfl)
          · exact congrArg some heq
        have hitem : ∀ o : Option Binding, ∀ r ∈ itemRef o, r ≠ .null := by
          rintro o r hr
          obtain ⟨b, -, rfl⟩ := map_eq_some_iff.mp hr
          nofun
        refine hinj _ _ (hitem _) (fun r hr => ?_) hget
        split at hr
        · cases hr
          nofun
        · exact hitem _ r hr
      · -- no child reads like what is no C string
        have hnone : ∀ b ∈ bs₂, cstr b.key ≠ x := by
          rintro b - rfl
          exact hx (nulFree_cstr b.key)
        have hfirst : firstFor x bs₂ = none :=
          List.find?_eq_none.mpr fun b hb => by simpa using hnone b hb
        have hlast : lastFor h₂ x bs₂ = none := by
          refine List.find?_eq_none.mpr fun b hb => ?_
          simpa using fun _ => hnone b (mem_reverse.mp hb)
        rw [hfirst, hlast]
    · intro hs
      refine hd.frames hd' hkey hrun fun x hx => ?_
      rw [hfound x hx, (last_eq_first_iff hn x).mpr (hs.once x), hp.scan hkey x]
      rfl
  · constructor
    · rintro ⟨h', hrun, -⟩
      rw [hover hhash] at hrun
      cases hrun
    · exact fun hs => absurd hs.hashable hhash

/-- **A set leaves the other lookups alone**, exactly unless it makes the hash table of a dictionary
in which a key is not whole where it comes first, or comes again. -/
theorem setItem_frames_iff (hd : Dictionary h p bs ht) (hkey : NulFree key)
    (hloose : Loose h p (dictItems bs) t) :
    SetFrames h p key t.1 ↔ (ht = none → Crosses bs key → Settled h bs) := by
  cases ht with
  | some T =>
    obtain ⟨h', bs', T', hrun, hd', hfound⟩ := hd.set_table hkey hloose
    exact ⟨fun _ h => (nomatch h), fun _ => hd.frames hd' hkey hrun hfound⟩
  | none =>
    by_cases hbig : Crosses bs key
    · rw [hd.frames_builds_iff hkey hloose hbig]
      exact ⟨fun hs _ _ => hs, fun hs => hs rfl hbig⟩
    · obtain ⟨h', bs', hrun, hd', hfound⟩ := hd.set_scan hkey hloose hbig
      exact ⟨fun _ _ h => absurd h hbig, fun _ => hd.frames hd' hkey hrun fun x _ => hfound x⟩

end Set

/-! ## Dictionaries that are read -/

/-- The end of `parse_dict_node`: a key node and its value are attached, pair after pair. -/
def attachPairs (h : PHeap) (p : Nat) : List (PlistData × PlistData) → Option PHeap
  | [] => some h
  | (key, val) :: rest => do
      let (k, h₁) := plistNewNode h key
      let (v, h₂) := plistNewNode h₁ val
      let h₃ ← nodeAttach h₂ p k
      let h₄ ← nodeAttach h₃ p v
      attachPairs h₄ p rest

theorem Dictionary.new (h : PHeap) : Dictionary (plistNewDict h).2 h.top [] none := by
  obtain ⟨-, hholds, -, hdata, -, -⟩ := plistNewNode_holds h ⟨.dict none, 0⟩
  exact ⟨⟨hholds, nofun⟩, ⟨0, hdata⟩, nofun⟩

theorem attachPairs_dictionary (hd : Dictionary h p bs none)
    (pairs : List ((List UInt8 × Nat) × PlistData)) :
    ∃ h' bs', attachPairs h p (pairs.map fun q => (⟨.scalar (.key q.1.1), q.1.2⟩, q.2)) = some h' ∧
      Dictionary h' p (bs ++ bs') none ∧ (∀ b ∈ bs, h'.data b.keyNode = h.data b.keyNode) ∧
      bs'.map (fun b => (b.key, keyData h' b.keyNode)) = pairs.map fun q => (q.1.1, some q.1) := by
  induction pairs generalizing h bs with
  | nil => exact ⟨h, [], rfl, by rwa [append_nil], fun _ _ => rfl, rfl⟩
  | cons q pairs ih =>
    obtain ⟨⟨s, n⟩, val⟩ := q
    obtain ⟨len, hdata⟩ := hd.data
    have hs := hd.nodes
    -- the two new nodes
    obtain ⟨-, -, -, hk1, htop1, hcells1⟩ := plistNewNode_holds h ⟨.scalar (.key s), n⟩
    obtain ⟨hs1, hloose1, -⟩ := hs.new_node ⟨.scalar (.key s), n⟩
    obtain ⟨h1, hh1⟩ : ∃ h1, h1 = (plistNewNode h ⟨.scalar (.key s), n⟩).2 := ⟨_, rfl⟩
    rw [← hh1] at hk1 htop1 hcells1 hs1 hloose1
    obtain ⟨-, -, -, -, -, hcells2⟩ := plistNewNode_holds h1 val
    obtain ⟨hs2, hloose2, hrest⟩ := hs1.new_node val
    obtain ⟨h₂, hh2⟩ : ∃ h₂, h₂ = (plistNewNode h1 val).2 := ⟨_, rfl⟩
    rw [← hh2] at hcells2 hs2 hloose2 hrest
    have hkv : h.top ≠ h1.top := by omega
    have hk2 : h₂.data h.top = some (some ⟨.scalar (.key s), n⟩) := by
      rw [Heap.data, hcells2 h.top hkv]
      exact hk1
    -- are attached
    obtain ⟨h3, h4, hatt3, hatt4, hn4, hdata4, -⟩ :=
      hs2.attach_pair hk2 (hrest hloose1).1 hloose2 (by simpa using hkv)
    have hkept : ∀ b ∈ p :: foot (dictItems bs), h4.data b = h.data b := by
      intro b hb
      rw [hdata4, Heap.data, hcells2 b (hs1.ne_top b hb), hcells1 b (hs.ne_top b hb)]
      rfl
    have hkeys : ∀ b ∈ bs, h4.data b.keyNode = h.data b.keyNode := fun b hb =>
      hkept _ (mem_cons_of_mem p (mem_dictItems_key hb))
    have hd4 : Dictionary h4 p (bs ++ [⟨h.top, s, (h1.top, [h1.top])⟩]) none :=
      ⟨hn4, ⟨len, (hkept p mem_cons_self).trans hdata⟩, fun T h => by cases h⟩
    obtain ⟨h', bs', hrun, hd', hsame, hmap⟩ := ih hd4
    refine ⟨h', ⟨h.top, s, (h1.top, [h1.top])⟩ :: bs', ?_, ?_, fun b hb => ?_, ?_⟩
    · have hnew1 : plistNewNode h ⟨.scalar (.key s), n⟩ = (h.top, h1) := by rw [hh1]; rfl
      have hnew2 : plistNewNode h1 val = (h1.top, h₂) := by rw [hh2]; rfl
      simp only [map_cons, attachPairs, hnew1, hnew2, hatt3, hatt4, bind_eq_bind, bind_some]
      exact hrun
    · rwa [append_assoc] at hd'
    · exact (hsame b (mem_append_left _ hb)).trans (hkeys b hb)
    · have hkey : keyData h' h.top = some (s, n) := by
        refine keyData_of_data ?_
        rw [hsame ⟨h.top, s, (h1.top, [h1.top])⟩ (by simp), hdata4]
        exact hk2
      rw [map_cons, map_cons, hmap, hkey]

theorem DictNodes.loose_new (hs : DictNodes h p bs) (d : PlistData) :
    Loose (plistNewNode h d).2 p (dictItems bs) (h.top, [h.top]) :=
  (hs.new_node d).2.1

theorem Dictionary.new_node (hd : Dictionary h p bs none) (d : PlistData) :
    Dictionary (plistNewNode h d).2 p bs none := by
  obtain ⟨len, hdata⟩ := hd.data
  obtain ⟨-, -, -, -, -, hcells⟩ := plistNewNode_holds h d
  refine ⟨(hd.nodes.new_node d).1, ⟨len, ?_⟩, nofun⟩
  rw [Heap.data, hcells p (hd.nodes.ne_top p mem_cons_self)]
  exact hdata

/-- An empty dictionary and a boolean beside it. -/
def dictAndBoolean : PHeap := (plistNewNode (plistNewDict Heap.empty).2 ⟨.scalar (.boolean 1), 1⟩).2

/-- One key is read, and another is set. -/
theorem setItem_frames_second : ∃ h bs t, Dictionary h 0 bs none ∧ bs.length = 1 ∧
    Loose h 0 (dictItems bs) t ∧ SetFrames h 0 [0x61] t.1 := by
  obtain ⟨h, bs, -, hd, -, hmap⟩ := attachPairs_dictionary (Dictionary.new Heap.empty)
    [(([0x62], 1), ⟨.scalar (.boolean 1), 1⟩)]
  rw [nil_append] at hd
  have hlen : bs.length = 1 := by simpa using congrArg List.length hmap
  have hd' := hd.new_node ⟨.scalar (.boolean 1), 1⟩
  have hloose := hd.nodes.loose_new ⟨.scalar (.boolean 1), 1⟩
  refine ⟨_, bs, _, hd', hlen, hloose,
    (setItem_frames_iff hd' (by decide) hloose).mpr fun _ hbig => absurd hbig ?_⟩
  rw [Crosses, hlen]
  split <;> decide

/-- 250 times one key are read, and another is set. -/
theorem setItem_frames_repeated : ∃ h p bs t key, Dictionary h p bs none ∧ NulFree key ∧
    Loose h p (dictItems bs) t ∧ ¬ SetFrames h p key t.1 := by
  obtain ⟨h, bs, -, hd, -, hmap⟩ := attachPairs_dictionary (Dictionary.new Heap.empty)
    (List.replicate 250 (([0x61], 1), ⟨.scalar (.boolean 1), 1⟩))
  rw [nil_append] at hd
  rw [map_replicate] at hmap
  have hkeys : ∀ b ∈ bs, b.key = [0x61] ∧ Whole h b := by
    intro b hb
    have hmem := mem_map_of_mem (f := fun b : Binding => (b.key, keyData h b.keyNode)) hb
    rw [hmap] at hmem
    obtain ⟨hkey, hdata⟩ := Prod.mk.inj (eq_of_mem_replicate hmem)
    refine ⟨hkey, ?_⟩
    rw [Whole, hdata, hkey]
    rfl
  have hlen : bs.length = 250 := by
    have := congrArg List.length hmap
    rwa [length_map, length_replicate] at this
  have hd' := hd.new_node ⟨.scalar (.boolean 1), 1⟩
  have hloose := hd.nodes.loose_new ⟨.scalar (.boolean 1), 1⟩
  have hbig : Crosses bs [0x62] := by
    have hnone : firstFor [0x62] bs = none := by
      refine List.find?_eq_none.mpr fun b hb => ?_
      rw [(hkeys b hb).1]
      decide
    rw [Crosses, hlen, hnone]
    decide
  refine ⟨_, 0, bs, _, [0x62], hd', by decide, hloose, fun hframes => ?_⟩
  have hs := (hd'.frames_builds_iff (by decide) hloose hbig).mp hframes
  have hall : bs.filter (fun b => cstr b.key = [0x61]) = bs := by
    refine filter_eq_self.mpr fun b hb => ?_
    rw [(hkeys b hb).1]
    decide
  -- the second child has the key of the first
  obtain ⟨b, c, rest, rfl⟩ : ∃ b c rest, bs = b :: c :: rest := by
    match bs, hlen with
    | b :: c :: rest, _ => exact ⟨b, c, rest, rfl⟩
  have hc : c ∈ b :: c :: rest := by simp
  refine (hs.once [0x61] b (c :: rest) hall).2 c mem_cons_self ?_
  refine (whole_congr ?_).mpr (hkeys c hc).2
  obtain ⟨-, -, -, -, -, hcells⟩ := plistNewNode_holds h ⟨.scalar (.boolean 1), 1⟩
  rw [Heap.data, hcells _ (hd.nodes.ne_top _ (mem_cons_of_mem _ (mem_dictItems_key hc)))]
  rfl

end IDeviceStack.Libplist
