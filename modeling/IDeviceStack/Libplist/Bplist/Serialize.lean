/-
# `Libplist.Bplist.Serialize` — what `serialize_plist` leaves behind

After the pass over a tree every node of it has an entry in `ref_table` that
compares equal to it, in its bucket (`Has`), and every entry leads to its own node in
`objects` (`Good`).  Nothing is said about which of several equal nodes that is: the
bucket of a data node depends on its address, so equal ones may be written once or
more than once.

The nodes of a tree have distinct addresses, which is all that the comparison of
containers looks at; so no container is found before it is entered, and the pass
reaches all nodes.
-/
import IDeviceStack.Libplist.HashIndex
import IDeviceStack.Libplist.Bplist.Table

namespace IDeviceStack.Libplist.Bplist

open List Option

/-! ## Trees -/

mutual

/-- The node and all nodes below it. -/
def Node.nodes : Node → List Node
  | .scalar address value length => [.scalar address value length]
  | .array address children => .array address children :: allNodes children
  | .dict address children => .dict address children :: allNodes children

def allNodes : List Node → List Node
  | [] => []
  | node :: nodes => node.nodes ++ allNodes nodes

end

/-- The addresses of all nodes. -/
def Node.addresses (node : Node) : List Nat := node.nodes.map Node.address

def allAddresses (nodes : List Node) : List Nat := (allNodes nodes).map Node.address

theorem Node.mem_nodes_self (node : Node) : node ∈ node.nodes := by
  cases node <;> simp [Node.nodes]

variable {node : Node}

theorem nodes_subset_allNodes {nodes : List Node} (h : node ∈ nodes) :
    node.nodes ⊆ allNodes nodes := by
  induction nodes with
  | nil => cases h
  | cons n nodes ih =>
    intro m hm
    rw [allNodes, mem_append]
    rcases mem_cons.mp h with rfl | h
    · exact .inl hm
    · exact .inr (ih h hm)

theorem Node.nodes_eq (node : Node) : node.nodes = node :: allNodes node.children := by
  cases node <;> rfl

mutual

theorem Node.nodes_trans {a b : Node} : ∀ {c : Node}, a ∈ b.nodes → b ∈ c.nodes → a ∈ c.nodes
  | .scalar _ _ _, hab, hbc => by
    rw [Node.nodes, mem_singleton] at hbc
    rwa [hbc] at hab
  | .array _ children, hab, hbc => by
    rw [Node.nodes_eq, mem_cons] at hbc ⊢
    rcases hbc with rfl | hbc
    · exact mem_cons.mp (Node.nodes_eq (.array _ children) ▸ hab)
    · exact .inr (allNodes_trans hab hbc)
  | .dict _ children, hab, hbc => by
    rw [Node.nodes_eq, mem_cons] at hbc ⊢
    rcases hbc with rfl | hbc
    · exact mem_cons.mp (Node.nodes_eq (.dict _ children) ▸ hab)
    · exact .inr (allNodes_trans hab hbc)

theorem allNodes_trans {a b : Node} :
    ∀ {cs : List Node}, a ∈ b.nodes → b ∈ allNodes cs → a ∈ allNodes cs
  | [], _, hbc => by cases hbc
  | c :: cs, hab, hbc => by
    rw [allNodes, mem_append] at hbc ⊢
    rcases hbc with hbc | hbc
    · exact .inl (Node.nodes_trans hab hbc)
    · exact .inr (allNodes_trans hab hbc)

end

variable {a b : Node}

theorem mem_nodes_of_child {root : Node} (hab : a ∈ b.children) (hb : b ∈ root.nodes) :
    a ∈ root.nodes := by
  refine Node.nodes_trans ?_ hb
  rw [Node.nodes_eq]
  exact mem_cons_of_mem b (nodes_subset_allNodes hab a.mem_nodes_self)

/-! ## Comparison -/

theorem plistDataCompare_self (node : Node) : plistDataCompare node node = true := by
  cases node with
  | scalar address value length => cases value <;> simp [plistDataCompare, streq]
  | array address children => simp [plistDataCompare]
  | dict address children => simp [plistDataCompare]

theorem address_eq_of_compare (hb : ∀ x v n, b ≠ .scalar x v n) (h : plistDataCompare a b = true) :
    a.address = b.address := by
  cases b with
  | scalar address value length => exact absurd rfl (hb _ _ _)
  | array address children =>
    cases a with
    | scalar address' value length => cases value <;> simp [plistDataCompare, Node.type, Scalar.type] at h
    | array address' children' => simpa [plistDataCompare, Node.type] using h
    | dict address' children' => simp [plistDataCompare, Node.type] at h
  | dict address children =>
    cases a with
    | scalar address' value length => cases value <;> simp [plistDataCompare, Node.type, Scalar.type] at h
    | array address' children' => simp [plistDataCompare, Node.type] at h
    | dict address' children' => simpa [plistDataCompare, Node.type] using h

theorem type_eq_of_compare (h : plistDataCompare a b = true) : a.type = b.type := by
  by_contra hne
  unfold plistDataCompare at h
  rw [if_pos hne] at h
  cases h

theorem eq_of_streq {s t : List UInt8} (hs : NulFree s) (ht : NulFree t) (h : streq s t = true) :
    s = t := by
  have heq := beq_iff_eq.mp h
  rwa [cstr_of_nulFree hs, cstr_of_nulFree ht] at heq

theorem eq_of_compare_number {x y m n k : Nat} {v w : Scalar} (hw : intval w = some k)
    (h : plistDataCompare (.scalar x v m) (.scalar y w n) = true) : m = n ∧ v = w := by
  have htype := type_eq_of_compare h
  cases w with
  | string s | key s | data s => cases hw
  | _ =>
    cases v <;> first
      | (cases htype; done)
      | simpa [plistDataCompare, Node.type, Scalar.type, intval, UInt8.toNat_inj,
          UInt64.toNat_inj] using h

/-- **Different values are never merged.** -/
theorem eq_of_compare {narrow : Narrow} {widen : Nat → Nat} {address length : Nat} {value : Scalar}
    (hok : ScalarStored narrow widen value length)
    (ha : ∀ x v n, a = .scalar x v n → ScalarStored narrow widen v n)
    (h : plistDataCompare a (.scalar address value length) = true) :
    ∃ address', a = .scalar address' value length := by
  have htype := type_eq_of_compare h
  cases a with
  | array address' children => cases value <;> cases htype
  | dict address' children => cases value <;> cases htype
  | scalar address' v n =>
    have hv := ha _ _ _ rfl
    refine ⟨address', ?_⟩
    cases value with
    | boolean x | uint x | real x | date x | uid x =>
      obtain ⟨rfl, rfl⟩ := eq_of_compare_number rfl h
      rfl
    | string s =>
      cases v with
      | string t =>
        have heq := eq_of_streq hv.1 hok.1 (by
          simpa [plistDataCompare, Node.type, Scalar.type] using h)
        rw [hv.2, hok.2, heq]
      | _ => cases htype
    | key s =>
      cases v with
      | key t =>
        have heq := eq_of_streq hv.1 hok.1 (by
          simpa [plistDataCompare, Node.type, Scalar.type] using h)
        rw [hv.2, hok.2, heq]
      | _ => cases htype
    | data s =>
      cases v with
      | data t =>
        obtain ⟨hn, htake⟩ : n = length ∧ t.take n = s.take n := by
          simpa [plistDataCompare, Node.type, Scalar.type] using h
        have ht : t.length = n := hv.symm
        have hs : s.length = n := hok.symm.trans hn.symm
        rw [take_of_length_le (by omega), take_of_length_le (by omega)] at htake
        rw [hn, htake]
      | _ => cases htype

/-! ## The table -/

/-- Every entry leads to its own node. -/
def SerializeS.Good (ser : SerializeS) : Prop :=
  ∀ b, ∀ e ∈ ser.refTable.entries b, ser.objects[e.value]? = some e.key

/-- There is an entry equal to the node, in its bucket. -/
def SerializeS.Has (ser : SerializeS) (node : Node) : Prop :=
  ∃ hash, plistDataHash node = some hash ∧
    ∃ e ∈ ser.refTable.entries (bucket hash), plistDataCompare e.key node = true

theorem compare_comparesTo (node : Node) (es : List (HashEntry Node Nat)) :
    ComparesTo (fun key => plistDataCompare key node) true
      (fun key => some (plistDataCompare key node)) es := by
  intro e _
  simp

variable {ser : SerializeS} {hash : BitVec 32}

theorem lookup_eq_none_or (hhash : plistDataHash node = some hash) :
    (hashTableLookup ser.refTable hash (fun key => some (plistDataCompare key node)) = some none ∧
        ¬ ser.Has node) ∨
      ∃ e ∈ ser.refTable.entries (bucket hash), plistDataCompare e.key node = true ∧
        hashTableLookup ser.refTable hash (fun key => some (plistDataCompare key node)) =
          some (some e.value) := by
  rw [hashTableLookup, chainLookup_eq (compare_comparesTo node _)]
  cases hf : (ser.refTable.entries (bucket hash)).find?
      (fun e => plistDataCompare e.key node = true) with
  | none =>
    refine .inl ⟨rfl, ?_⟩
    rintro ⟨hash', hhash', e, he, hcmp⟩
    obtain rfl := some.inj (hhash.symm.trans hhash')
    have hno := List.find?_eq_none.mp hf e he
    simp [hcmp] at hno
  | some e =>
    exact .inr ⟨e, mem_of_find?_eq_some hf, by simpa using List.find?_some hf, rfl⟩

theorem nodeIndex_of_has (hgood : ser.Good) (h : ser.Has node) :
    ∃ i m, nodeIndex ser.refTable node = some i ∧ ser.objects[i]? = some m ∧
      plistDataCompare m node = true := by
  obtain ⟨hash, hhash, -⟩ := id h
  rcases lookup_eq_none_or hhash with ⟨-, hno⟩ | ⟨e, he, hcmp, hlookup⟩
  · exact absurd h hno
  · refine ⟨e.value, e.key, ?_, hgood _ e he, hcmp⟩
    simp [nodeIndex, hhash, hlookup]

theorem addObject_spec (hgood : ser.Good) (hhash : plistDataHash node = some hash) :
    (addObject ser node = some none ∧ ser.Has node) ∨
      ∃ ser', addObject ser node = some (some ser') ∧ ser'.Good ∧
        ser'.objects = ser.objects ++ [node] ∧ ser'.Has node ∧ ∀ m, ser.Has m → ser'.Has m := by
  rcases lookup_eq_none_or hhash with ⟨hlookup, hno⟩ | ⟨e, he, hcmp, hlookup⟩
  · right
    have habs : ∀ e ∈ ser.refTable.entries (bucket hash), plistDataCompare e.key node ≠ true :=
      fun e he hcmp => hno ⟨hash, hhash, e, he, hcmp⟩
    have hreplace := chainReplace_absent ser.objects.length
      (compare_comparesTo node (ser.refTable.entries (bucket hash))) habs
    refine ⟨⟨ser.objects ++ [node], ⟨Function.update ser.refTable.entries (bucket hash)
      (⟨node, ser.objects.length⟩ :: ser.refTable.entries (bucket hash)), ser.refTable.count + 1⟩⟩,
      ?_, ?_, rfl, ?_, ?_⟩
    · simp [addObject, hhash, hlookup, hashTableInsert, hreplace]
    · intro b e he
      by_cases hb : b = bucket hash
      · subst hb
        simp only [Function.update_self, mem_cons] at he
        rcases he with rfl | he
        · simp
        · have hobj := hgood _ e he
          obtain ⟨hlt, -⟩ := List.getElem?_eq_some_iff.mp hobj
          rw [List.getElem?_append_left hlt, hobj]
      · simp only [Function.update_of_ne hb] at he
        have hobj := hgood _ e he
        obtain ⟨hlt, -⟩ := List.getElem?_eq_some_iff.mp hobj
        rw [List.getElem?_append_left hlt, hobj]
    · exact ⟨hash, hhash, ⟨node, ser.objects.length⟩, by simp, plistDataCompare_self node⟩
    · rintro m ⟨hash', hhash', e, he, hcmp⟩
      refine ⟨hash', hhash', e, ?_, hcmp⟩
      by_cases hb : bucket hash' = bucket hash
      · rw [hb] at he ⊢
        simp [he]
      · simp [Function.update_of_ne hb, he]
  · left
    refine ⟨?_, hash, hhash, e, he, hcmp⟩
    simp [addObject, hhash, hlookup]

/-! ## The pass -/

/-- What a pass over `nodes` has done. -/
structure Covers (ser ser' : SerializeS) (nodes : List Node) : Prop where
  good : ser'.Good
  pre : ser.objects <+: ser'.objects
  keeps : ∀ m, ser.Has m → ser'.Has m
  has : ∀ m ∈ nodes, ser'.Has m
  objects : ∀ m ∈ ser'.objects, m ∈ ser.objects ∨ m ∈ nodes

theorem Covers.append {ser0 ser1 ser2 : SerializeS} {ns ms : List Node} (h : Covers ser0 ser1 ns)
    (h' : Covers ser1 ser2 ms) : Covers ser0 ser2 (ns ++ ms) where
  good := h'.good
  pre := h.pre.trans h'.pre
  keeps m hm := h'.keeps m (h.keeps m hm)
  has := by
    intro m hm
    rcases mem_append.mp hm with hm | hm
    · exact h'.keeps m (h.has m hm)
    · exact h'.has m hm
  objects := by
    intro m hm
    rw [mem_append]
    rcases h'.objects m hm with hm | hm
    · rcases h.objects m hm with hm | hm
      · exact .inl hm
      · exact .inr (.inl hm)
    · exact .inr (.inr hm)

theorem covers_container (hgood : ser.Good)
    (hcont : ∀ x v n, node ≠ .scalar x v n)
    (hhash : plistDataHash node = some hash) (hnodup : node.addresses.Nodup)
    (hfresh : ∀ m ∈ ser.objects, m.address ∉ node.addresses)
    (ih : ∀ {ser : SerializeS}, ser.Good →
      (∀ m ∈ ser.objects, m.address ∉ allAddresses node.children) →
      ∃ ser', serializeChildren ser node.children = some ser' ∧
        Covers ser ser' (allNodes node.children)) :
    ∃ ser1 ser', addObject ser node = some (some ser1) ∧
      serializeChildren ser1 node.children = some ser' ∧ Covers ser ser' node.nodes ∧
      ser.objects ++ [node] <+: ser'.objects := by
  rw [Node.addresses, Node.nodes_eq, map_cons] at hnodup hfresh
  obtain ⟨hself, -⟩ := nodup_cons.mp hnodup
  rcases addObject_spec hgood hhash with ⟨-, hash', -, e, he, hcmp⟩ |
    ⟨ser1, hadd, hgood1, hobjs, hhas, hkeeps⟩
  · -- it would have been entered before
    have hobj := mem_of_getElem? (hgood _ e he)
    exact absurd (address_eq_of_compare hcont hcmp ▸ mem_cons_self) (hfresh _ hobj)
  · obtain ⟨ser', hrun, hc⟩ := ih hgood1 (fun m hm => by
      rw [hobjs, mem_append, mem_singleton] at hm
      rcases hm with hm | rfl
      · exact fun hin => hfresh m hm (mem_cons_of_mem _ hin)
      · exact hself)
    have hfirst : Covers ser ser1 [node] :=
      ⟨hgood1, hobjs ▸ prefix_append _ _, hkeeps,
        fun m hm => (mem_singleton.mp hm).symm ▸ hhas, fun m hm => by
          rwa [hobjs, mem_append] at hm⟩
    refine ⟨ser1, ser', hadd, hrun, ?_, hobjs ▸ hc.pre⟩
    rw [Node.nodes_eq]
    exact hfirst.append hc

mutual

/-- **The pass over a tree.**  Its nodes have hashes and addresses of their own.  A node that is
new comes before what is below it. -/
theorem serializePlist_covers : ∀ (node : Node) {ser : SerializeS}, ser.Good →
    (∀ m ∈ node.nodes, ∃ hash, plistDataHash m = some hash) → node.addresses.Nodup →
    (∀ m ∈ ser.objects, m.address ∉ node.addresses) →
    ∃ ser', serializePlist ser node = some ser' ∧ Covers ser ser' node.nodes ∧
      (¬ ser.Has node → ser.objects ++ [node] <+: ser'.objects)
  | .scalar address value length, ser, hgood, hhash, _, _ => by
    obtain ⟨hash, hh⟩ := hhash _ (Node.mem_nodes_self _)
    rcases addObject_spec hgood hh with ⟨hadd, hhas⟩ | ⟨ser', hadd, hgood', hobjs, hhas, hkeeps⟩
    · refine ⟨ser, by simp [serializePlist, hadd], ⟨hgood, prefix_refl _, fun m hm => hm,
        fun m hm => ?_, fun m hm => .inl hm⟩, fun hno => absurd hhas hno⟩
      rw [Node.nodes, mem_singleton] at hm
      rwa [hm]
    · refine ⟨ser', by simp [serializePlist, hadd], ⟨hgood', hobjs ▸ prefix_append _ _,
        hkeeps, fun m hm => ?_, fun m hm => ?_⟩, fun _ => hobjs ▸ prefix_refl _⟩
      · rw [Node.nodes, mem_singleton] at hm
        rwa [hm]
      · rw [hobjs, mem_append] at hm
        exact hm
  | .array address children, ser, hgood, hhash, hnodup, hfresh => by
    obtain ⟨hash, hh⟩ := hhash _ (Node.mem_nodes_self _)
    obtain ⟨ser1, ser', hadd, hrun, hc, hpre⟩ := covers_container hgood (fun _ _ _ h => by cases h) hh
      hnodup hfresh (fun hgood1 hfresh1 => serializeChildren_covers children hgood1
        (fun m hm => hhash m (mem_cons_of_mem _ hm)) (nodup_cons.mp hnodup).2 hfresh1)
    refine ⟨ser', ?_, hc, fun _ => hpre⟩
    simpa [serializePlist, hadd, Node.children] using hrun
  | .dict address children, ser, hgood, hhash, hnodup, hfresh => by
    obtain ⟨hash, hh⟩ := hhash _ (Node.mem_nodes_self _)
    obtain ⟨ser1, ser', hadd, hrun, hc, hpre⟩ := covers_container hgood (fun _ _ _ h => by cases h) hh
      hnodup hfresh (fun hgood1 hfresh1 => serializeChildren_covers children hgood1
        (fun m hm => hhash m (mem_cons_of_mem _ hm)) (nodup_cons.mp hnodup).2 hfresh1)
    refine ⟨ser', ?_, hc, fun _ => hpre⟩
    simpa [serializePlist, hadd, Node.children] using hrun

theorem serializeChildren_covers : ∀ (nodes : List Node) {ser : SerializeS}, ser.Good →
    (∀ m ∈ allNodes nodes, ∃ hash, plistDataHash m = some hash) → (allAddresses nodes).Nodup →
    (∀ m ∈ ser.objects, m.address ∉ allAddresses nodes) →
    ∃ ser', serializeChildren ser nodes = some ser' ∧ Covers ser ser' (allNodes nodes)
  | [], ser, hgood, _, _, _ =>
    ⟨ser, rfl, hgood, prefix_refl _, fun m hm => hm, fun m hm => absurd hm not_mem_nil,
      fun m hm => .inl hm⟩
  | node :: nodes, ser, hgood, hhash, hnodup, hfresh => by
    rw [allAddresses, allNodes, map_append, nodup_append] at hnodup
    obtain ⟨hn1, hn2, hdisj⟩ := hnodup
    have hmem (x : Nat) : x ∈ allAddresses (node :: nodes) ↔
        x ∈ node.addresses ∨ x ∈ allAddresses nodes := by
      rw [allAddresses, allNodes, map_append, mem_append]
      rfl
    obtain ⟨ser1, hrun1, hc1, -⟩ := serializePlist_covers node hgood
      (fun m hm => hhash m (mem_append_left _ hm)) hn1
      (fun m hm hin => hfresh m hm ((hmem _).mpr (.inl hin)))
    obtain ⟨ser2, hrun2, hc2⟩ := serializeChildren_covers nodes hc1.good
      (fun m hm => hhash m (mem_append_right _ hm)) hn2 (fun m hm hin => by
        rcases hc1.objects m hm with hm | hm
        · exact hfresh m hm ((hmem _).mpr (.inr hin))
        · exact hdisj _ (mem_map_of_mem (f := Node.address) hm) _ hin rfl)
    exact ⟨ser2, by simp [serializeChildren, hrun1, hrun2], hc1.append hc2⟩

end

/-! ## The number of objects -/

theorem addObject_length {ser' : SerializeS} (h : addObject ser node = some (some ser')) :
    ser'.objects.length = ser.objects.length + 1 := by
  simp only [addObject, bind_eq_bind, bind_eq_some_iff] at h
  obtain ⟨hash, -, found, -, h⟩ := h
  cases found with
  | some index => cases h
  | none =>
    obtain ⟨refTable, -, h⟩ := bind_eq_some_iff.mp h
    cases h
    rw [length_append, length_singleton]

mutual

theorem serializePlist_length : ∀ (node : Node) {ser ser' : SerializeS},
    serializePlist ser node = some ser' →
      ser'.objects.length ≤ ser.objects.length + node.nodes.length
  | node, ser, ser', h => by
    rw [serializePlist, bind_eq_bind, bind_eq_some_iff] at h
    obtain ⟨added, hadd, h⟩ := h
    cases added with
    | none =>
      cases h
      omega
    | some ser1 =>
      have hone := addObject_length hadd
      cases node with
      | scalar address value length =>
        cases h
        rw [Node.nodes, length_singleton]
        omega
      | array address children =>
        have hrest := serializeChildren_length children h
        rw [Node.nodes, length_cons]
        omega
      | dict address children =>
        have hrest := serializeChildren_length children h
        rw [Node.nodes, length_cons]
        omega

theorem serializeChildren_length : ∀ (nodes : List Node) {ser ser' : SerializeS},
    serializeChildren ser nodes = some ser' →
      ser'.objects.length ≤ ser.objects.length + (allNodes nodes).length
  | [], ser, ser', h => by
    cases h
    omega
  | child :: children, ser, ser', h => by
    rw [serializeChildren, bind_eq_bind, bind_eq_some_iff] at h
    obtain ⟨ser1, hchild, h⟩ := h
    have hone := serializePlist_length child hchild
    have hrest := serializeChildren_length children h
    rw [allNodes, length_append]
    omega

end

end IDeviceStack.Libplist.Bplist
