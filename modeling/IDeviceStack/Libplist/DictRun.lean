/-
# `Libplist.DictRun` — a dictionary is an ordered map

A run of `plist_dict_set_item` and `plist_dict_remove_item` on one dictionary is
compared with an ordered finite map: setting a key that is there replaces its
item in place, setting a new one appends it, removing one closes the gap.

The comparison holds after every run (`dict_refines_ordered_map`), with or
without the hash table.  A dictionary gets its table with the first set that
leaves more than 500 children, and keeps it (`DictState.indexed`).
-/
import IDeviceStack.Libplist.Dict

namespace IDeviceStack.Libplist

open Lib Cnary List Option

/-- What can happen around a dictionary.  `other` is the rest of the program. -/
inductive DictOp where
  | set (key : List UInt8) (item : Item)
  | remove (key : List UInt8)
  | other (h : PHeap)

def DictOp.exec (p : Nat) (h : PHeap) : DictOp → Option PHeap
  | .set key item => plistDictSetItem h p key item.1
  | .remove key => plistDictRemoveItem h p key
  | .other h' => some h'

def execDict (p : Nat) (h : PHeap) : List DictOp → Option PHeap
  | [] => some h
  | op :: ops => do
      let h ← op.exec p h
      execDict p h ops

/-- What a caller owes: keys are C strings, items are trees of their own, and the rest of the
program keeps away from the dictionary's memory. -/
def DictOp.Legal (p : Nat) (h : PHeap) : DictOp → Prop
  | .set key item => NulFree key ∧ Tree h item.1 item.2 ∧ item.2.Nodup ∧
      ∀ fp, Tree h p fp → ∀ b ∈ item.2, b ∉ fp
  | .remove key => NulFree key
  | .other h' => ∀ fp, Tree h p fp → ∀ b ∈ fp, h'.cells b = h.cells b

/-- Every step of the run is legal in the memory it meets. -/
def LegalDictRun (p : Nat) : PHeap → List DictOp → Prop
  | _, [] => True
  | h, op :: ops => op.Legal p h ∧ ∀ h', op.exec p h = some h' → LegalDictRun p h' ops

/-! ## The map a dictionary stands for -/

/-- The entries in order of first insertion, and whether there is a hash table. -/
structure DictState where
  entries : List (List UInt8 × Item)
  indexed : Bool

def DictState.new : DictState := ⟨[], false⟩

/-- Replace in place, or append. -/
def setEntry {α : Type} : List (List UInt8 × α) → List UInt8 → α → List (List UInt8 × α)
  | [], key, item => [(key, item)]
  | e :: m, key, item => if e.1 = key then (key, item) :: m else e :: setEntry m key item

def removeEntry (m : List (List UInt8 × Item)) (key : List UInt8) : List (List UInt8 × Item) :=
  m.filter fun e => e.1 ≠ key

def DictState.step (s : DictState) : DictOp → DictState
  | .set key item =>
    let m := setEntry s.entries key item
    ⟨m, s.indexed || decide (2 * m.length > 500)⟩
  | .remove key => ⟨removeEntry s.entries key, s.indexed⟩
  | .other _ => s

def DictState.run (s : DictState) (ops : List DictOp) : DictState := ops.foldl step s

/-- The item of the most recent set of `key` that no removal of `key` follows. -/
def lastSet (key : List UInt8) (ops : List DictOp) : Option Item :=
  ops.foldl
    (fun found op =>
      match op with
      | .set key' item => if key' = key then some item else found
      | .remove key' => if key' = key then none else found
      | .other _ => found)
    none

def lookupEntry : List (List UInt8 × Item) → List UInt8 → Option Item
  | [], _ => none
  | e :: m, key => if e.1 = key then some e.2 else lookupEntry m key

theorem lookupEntry_setEntry (m : List (List UInt8 × Item)) (key key' : List UInt8) (item : Item) :
    lookupEntry (setEntry m key' item) key = if key' = key then some item else lookupEntry m key := by
  induction m with
  | nil => rfl
  | cons e m ih =>
    rw [setEntry]
    by_cases he : e.1 = key'
    · by_cases hk : key' = key <;> simp [lookupEntry, he, hk]
    · by_cases hek : e.1 = key
      · have hne : key' ≠ key := fun h => he (hek.trans h.symm)
        rw [if_neg he, lookupEntry, lookupEntry, if_pos hek, if_neg hne, if_pos hek]
      · simp [lookupEntry, he, hek, ih]

theorem lookupEntry_removeEntry (m : List (List UInt8 × Item)) (key key' : List UInt8) :
    lookupEntry (removeEntry m key') key = if key' = key then none else lookupEntry m key := by
  induction m with
  | nil => simp [removeEntry, lookupEntry]
  | cons e m ih =>
    unfold removeEntry at ih ⊢
    by_cases he : e.1 = key'
    · rw [filter_cons_of_neg (by simpa using he), ih]
      by_cases hk : key' = key <;> simp [lookupEntry, he, hk]
    · rw [filter_cons_of_pos (by simpa using he), lookupEntry, lookupEntry, ih]
      by_cases hek : e.1 = key
      · have hne : key' ≠ key := fun h => he (hek.trans h.symm)
        simp [hek, hne]
      · simp [hek]

theorem lookupEntry_run (key : List UInt8) (ops : List DictOp) :
    lookupEntry (DictState.new.run ops).entries key = lastSet key ops := by
  induction ops using reverseRecOn with
  | nil => rfl
  | append_singleton ops op ih =>
    have hrun : DictState.new.run (ops ++ [op]) = (DictState.new.run ops).step op := by
      simp [DictState.run]
    rw [hrun, lastSet, foldl_append, ← lastSet]
    cases op with
    | set key' item => simp [DictState.step, lookupEntry_setEntry, ih]
    | remove key' => simp [DictState.step, lookupEntry_removeEntry, ih]
    | other h => simpa [DictState.step] using ih

/-! ## One step -/

/-- The entries that bindings stand for. -/
def entriesOf (bs : List Binding) : List (List UInt8 × Item) := bs.map fun b => (b.key, b.item)

theorem lookupEntry_entriesOf (bs : List Binding) (key : List UInt8) :
    lookupRef bs key = match lookupEntry (entriesOf bs) key with | some t => .node t.1 | none => .null := by
  induction bs with
  | nil => rfl
  | cons b bs ih =>
    by_cases hb : b.key = key
    · simp [lookupRef, lookupEntry, entriesOf, hb]
    · rw [lookupRef_cons_of_ne hb, ih]
      simp [lookupEntry, entriesOf, hb]

theorem setEntry_present {l r : List Binding} {b : Binding} {item : Item}
    (hl : ∀ c ∈ l, c.key ≠ b.key) :
    setEntry (entriesOf (l ++ b :: r)) b.key item =
      entriesOf (l ++ { b with item := item } :: r) := by
  induction l with
  | nil => simp [entriesOf, setEntry]
  | cons c l ih =>
    have hc := hl c mem_cons_self
    have ih' := ih fun d hd => hl d (mem_cons_of_mem c hd)
    simp only [entriesOf, cons_append, map_cons, setEntry, if_neg hc] at ih' ⊢
    rw [ih']

variable {bs : List Binding}

theorem setEntry_absent {key : List UInt8} {item : Item} {k : Nat} (hbs : ∀ c ∈ bs, c.key ≠ key) :
    setEntry (entriesOf bs) key item = entriesOf (bs ++ [⟨k, key, item⟩]) := by
  induction bs with
  | nil => rfl
  | cons c bs ih =>
    have hc := hbs c mem_cons_self
    have ih' := ih fun d hd => hbs d (mem_cons_of_mem c hd)
    simp only [entriesOf, cons_append, map_cons, setEntry, if_neg hc] at ih' ⊢
    rw [ih']

theorem removeEntry_present {l r : List Binding} {b : Binding}
    (hdis : ((l ++ b :: r).map Binding.key).Nodup) :
    removeEntry (entriesOf (l ++ b :: r)) b.key = entriesOf (l ++ r) := by
  have hkeep : ∀ bs : List Binding, (∀ c ∈ bs, c.key ≠ b.key) →
      removeEntry (entriesOf bs) b.key = entriesOf bs := by
    intro bs hbs
    refine filter_eq_self.mpr fun e he => ?_
    obtain ⟨c, hc, rfl⟩ := mem_map.mp he
    simpa using hbs c hc
  have hsplit : removeEntry (entriesOf (l ++ b :: r)) b.key =
      removeEntry (entriesOf l) b.key ++ removeEntry (entriesOf r) b.key := by
    simp [removeEntry, entriesOf]
  rw [hsplit, hkeep l fun c hc => key_ne_of_distinct hdis (mem_append_left r hc),
    hkeep r fun c hc => key_ne_of_distinct hdis (mem_append_right l hc)]
  simp [entriesOf]

variable {h : PHeap} {p : Nat}

theorem DictShape.tree (hs : DictShape h p bs) : Tree h p (p :: foot (dictItems bs)) :=
  .node hs.holds.children.toChain hs.holds.forest

/-- The dictionary stands for `s`. -/
def DictStands (h : PHeap) (p : Nat) (s : DictState) : Prop :=
  ∃ bs, entriesOf bs = s.entries ∧ DictRefines h p bs s.indexed

theorem DictStands.step {s : DictState} {op : DictOp} (hst : DictStands h p s)
    (hlegal : op.Legal p h) : ∃ h', op.exec p h = some h' ∧ DictStands h' p (s.step op) := by
  obtain ⟨bs, hbs, hr⟩ := hst
  cases op with
  | set key item =>
    obtain ⟨hkey, htree, hnd, hout⟩ := hlegal
    have hloose : Loose h p (dictItems bs) item := ⟨htree, hnd, hout _ hr.shape.tree⟩
    cases hfind : bs.find? (fun c => c.key = key) with
    | some b =>
      obtain ⟨hb, l, r, rfl, hl⟩ := List.find?_eq_some_iff_append.mp hfind
      obtain rfl : b.key = key := by simpa using hb
      obtain ⟨h', hrun, hr'⟩ := hr.set_present hloose hfind
      have hentry : setEntry s.entries b.key item =
          entriesOf (l ++ { b with item := item } :: r) := by
        rw [← hbs]
        exact setEntry_present fun c hc => by simpa using hl c hc
      refine ⟨h', hrun, _, hentry.symm, ?_⟩
      simpa [DictState.step, hentry, entriesOf] using hr'
    | none =>
      obtain ⟨h', k, hrun, hr'⟩ := hr.set_absent hkey hloose hfind
      have hentry : setEntry s.entries key item = entriesOf (bs ++ [⟨k, key, item⟩]) := by
        rw [← hbs]
        exact setEntry_absent fun c hc => by simpa using List.find?_eq_none.mp hfind c hc
      refine ⟨h', hrun, _, hentry.symm, ?_⟩
      simpa [DictState.step, hentry, entriesOf] using hr'
  | remove key =>
    cases hfind : bs.find? (fun c => c.key = key) with
    | some b =>
      obtain ⟨l, r, rfl, rfl⟩ := find_split hfind
      obtain ⟨h', hrun, hr'⟩ := hr.remove_present hfind
      refine ⟨h', hrun, l ++ r, ?_, hr'⟩
      rw [← removeEntry_present hr.shape.distinct, hbs]
      rfl
    | none =>
      refine ⟨h, hr.remove_absent hlegal hfind, bs, ?_, hr⟩
      have hkeep : removeEntry s.entries key = s.entries := by
        rw [← hbs]
        refine filter_eq_self.mpr fun e he => ?_
        obtain ⟨c, hc, rfl⟩ := mem_map.mp he
        simpa using List.find?_eq_none.mp hfind c hc
      simpa [DictState.step, hkeep] using hbs
  | other h' => exact ⟨h', rfl, bs, hbs, hr.of_cells (hlegal _ hr.shape.tree)⟩

/-! ## Whole runs -/

theorem DictStands.run {s : DictState} {ops : List DictOp} (hst : DictStands h p s)
    (hlegal : LegalDictRun p h ops) :
    ∃ h', execDict p h ops = some h' ∧ DictStands h' p (s.run ops) := by
  induction ops generalizing h s with
  | nil => exact ⟨h, rfl, hst⟩
  | cons op ops ih =>
    obtain ⟨h1, hrun1, hst1⟩ := hst.step hlegal.1
    obtain ⟨h', hrun, hst'⟩ := ih hst1 (hlegal.2 h1 hrun1)
    refine ⟨h', ?_, hst'⟩
    simpa only [execDict, hrun1, bind_eq_bind, bind_some] using hrun

theorem getElem_dictItems (bs : List Binding) (i : Nat) :
    (roots (dictItems bs))[2 * i]? = (bs[i]?).map Binding.keyNode ∧
      (roots (dictItems bs))[2 * i + 1]? = (bs[i]?).map fun b => b.item.1 := by
  induction bs generalizing i with
  | nil => simp
  | cons b bs ih =>
    cases i with
    | zero => simp
    | succ i =>
      have := ih i
      simpa [Nat.mul_add] using this

theorem DictRefines.nextItem {indexed : Bool} (hr : DictRefines h p bs indexed) (i : Nat)
    (hi : i ≤ bs.length) :
    plistDictNextItem h p (2 * i) =
      some (match bs[i]? with
        | some b => (some b.key, .node b.item.1, 2 * i + 2)
        | none => (none, .null, 2 * i)) := by
  have hs := hr.shape
  obtain ⟨ht, len, hd, -, -⟩ := hr.table
  have hcount : nodeNChildren h p = some (2 * bs.length) := by
    have hc := hs.holds.children.count
    rw [roots, length_map, length_dictItems] at hc
    exact hc
  have hnth := hs.holds.children.toChain.nodeNthChild
  obtain ⟨hkey, hval⟩ := getElem_dictItems bs i
  cases hb : bs[i]? with
  | none =>
    have hlen := List.getElem?_eq_none_iff.mp hb
    simp only [plistDictNextItem, plistGetNodeType_of_data hd, PlistData.type, hcount,
      bind_eq_bind, bind_some, true_and, if_neg (show ¬ 2 * i < 2 * bs.length by omega)]
  | some b =>
    obtain ⟨hlt, rfl⟩ := List.getElem?_eq_some_iff.mp hb
    have hmem : bs[i] ∈ bs := getElem_mem hlt
    have hkd := hs.keys _ hmem
    have hnul := hs.nulFree _ hmem
    have hk : plistGetKeyVal h (.node bs[i].keyNode) = some bs[i].key := by
      simp only [plistGetKeyVal, plistGetNodeType_of_data hkd, PlistData.type, Scalar.type,
        bind_eq_bind, bind_some, if_true, keyData_of_data hkd,
        strlen_of_nulFree hnul, cstr_of_nulFree hnul]
    rw [hb] at hkey hval
    simp only [plistDictNextItem, plistGetNodeType_of_data hd, PlistData.type, hcount,
      bind_eq_bind, bind_some, true_and, if_pos (show 2 * i < 2 * bs.length by omega),
      hnth, hkey, hval, map_some, hk]

/-- **A dictionary refines an ordered map.**  After every run on a new dictionary the functions have
returned; a lookup gives the item last set and not removed since, by either way of looking; the
children alternate between distinct keys and their items in the order of first insertion, which is
the order of iteration; and there is a hash table as soon as, and ever since, a set has left more
than 500 children. -/
theorem dict_refines_ordered_map (h₀ : PHeap) (ops : List DictOp)
    (hlegal : LegalDictRun (plistNewDict h₀).1 (plistNewDict h₀).2 ops) :
    ∃ h', execDict (plistNewDict h₀).1 (plistNewDict h₀).2 ops = some h' ∧
      (∀ key, NulFree key → plistDictGetItem h' (plistNewDict h₀).1 key =
        some (match lastSet key ops with | some t => .node t.1 | none => .null)) ∧
      (∃ bs, entriesOf bs = (DictState.new.run ops).entries ∧ DictShape h' (plistNewDict h₀).1 bs) ∧
      (∀ i ≤ (DictState.new.run ops).entries.length,
        plistDictNextItem h' (plistNewDict h₀).1 (2 * i) =
          some (match (DictState.new.run ops).entries[i]? with
            | some e => (some e.1, .node e.2.1, 2 * i + 2)
            | none => (none, .null, 2 * i))) ∧
      ∃ ht, dictHashtable h' (plistNewDict h₀).1 = some ht ∧
        ht.isSome = (DictState.new.run ops).indexed := by
  obtain ⟨-, hh, -, hd, -, -⟩ := plistNewNode_holds h₀ ⟨.dict none, 0⟩
  have hnew : DictStands (plistNewDict h₀).2 (plistNewDict h₀).1 DictState.new :=
    ⟨[], rfl, ⟨hh, by simp, by simp, by simp⟩, none, 0, hd, rfl, by simp⟩
  obtain ⟨h', hrun, bs, hbs, hr⟩ := hnew.run hlegal
  refine ⟨h', hrun, fun key hkey => ?_, ⟨bs, hbs, hr.shape⟩, fun i hi => ?_, ?_⟩
  · rw [hr.getItem hkey, lookupEntry_entriesOf, hbs, lookupEntry_run]
  · rw [← hbs] at hi ⊢
    rw [entriesOf, length_map] at hi
    rw [hr.nextItem i hi, entriesOf, List.getElem?_map]
    cases bs[i]? <;> rfl
  · obtain ⟨ht, len, hd', hix, -⟩ := hr.table
    have hget : plistGetData h' (plistNewDict h₀).1 = some (some ⟨.dict ht, len⟩) := hd'
    exact ⟨ht, by simp only [dictHashtable, hget, bind_eq_bind, bind_some], hix⟩

theorem Tree.eq_leaf {a : Nat} {fp : List Nat} (last : Ref) (hl : h.list a = some ⟨.null, last, 0⟩)
    (ht : Tree h a fp) : fp = [a] := by
  cases ht with
  | node hc hts =>
    rename_i ts
    have hlen := congrArg NodeList.count (some.inj (hl.symm.trans hc.list))
    simp only [roots, length_map] at hlen
    obtain rfl := length_eq_zero_iff.mp hlen.symm
    rfl

/-- One boolean, at the address 0. -/
def oneBoolean : PHeap := (plistNewNode Heap.empty ⟨.scalar (.boolean 1), 1⟩).2

theorem dict_refines_ordered_map_set_remove :
    LegalDictRun 1 (plistNewDict oneBoolean).2 [.set [107] (0, [0]), .remove [107]] ∧
      ∃ h', execDict 1 (plistNewDict oneBoolean).2 [.set [107] (0, [0]), .remove [107]] = some h' ∧
        plistDictGetItem h' 1 [107] = some .null := by
  have hlegal : LegalDictRun 1 (plistNewDict oneBoolean).2
      [.set [107] (0, [0]), .remove [107]] := by
    have hloose : Loose (plistNewDict oneBoolean).2 1 [] (0, [0]) :=
      Loose.leaf (.list 0) rfl (by decide)
    refine ⟨⟨by decide, hloose.tree, hloose.nodup, fun fp hfp b hb => ?_⟩, fun h _ => ⟨?_, fun _ _ => trivial⟩⟩
    · rw [Tree.eq_leaf (.list 1) rfl hfp, mem_singleton.mp hb]
      decide
    · show NulFree [107]
      decide
  obtain ⟨h', hrun, hget, -⟩ := dict_refines_ordered_map oneBoolean _ hlegal
  exact ⟨hlegal, h', hrun, hget [107] (by decide)⟩

end IDeviceStack.Libplist
