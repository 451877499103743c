/-
# `Libimobiledevice.Browse` — the list of the applications

`instproxy_browse` of `installation_proxy.c` runs the loop of `InstallationProxy` with a callback that
appends the items of each `CurrentList` to one array.  How many items it takes is what the message
announces; the length of the list is only what it starts from.

* An array is copied with its message, and each item once more when it is appended.  `plist_copy` of
  `NULL`, which is what is found behind the end of a list, ends the program with an assertion.
* The numbers of `plist_array_get_size` and `plist_array_get_item` have 32 bits.

**Proved here.**  `browseRight_iff`.
-/
import IDeviceStack.Libimobiledevice.InstallationProxy
import Mathlib.Algebra.Order.Ring.Nat

namespace IDeviceStack.Libimobiledevice.InstallationProxy

open Lib
open Libplist hiding plistDictGetItem
open Libplist.Values Libplist.Xplist List

/-! ## Copies -/

/-- The value of a copy: `strdup` ends a string at its first `NUL`. -/
def copyScalar (length : Nat) : Scalar → Scalar
  | .string strval => .string (cstr strval)
  | .key strval => .key (cstr strval)
  | .data buff => .data (buff.take length)
  | value => value

mutual

/-- `plist_copy`, on trees. -/
def copyNode : Plist → Plist
  | .scalar value length => .scalar (copyScalar length value) length
  | .array children => .array (copyNodes children)
  | .dict children => .dict (copyNodes children)

def copyNodes : List Plist → List Plist
  | [] => []
  | node :: nodes => copyNode node :: copyNodes nodes

end

/-- `plist_copy` of what may be `NULL`. -/
def plistCopyItem : Option Plist → Except Abort Plist
  | some node => .ok (copyNode node)
  | none => .error .assertion

/-! ## Lists -/

def plistArrayGetSize : Plist → Nat
  | .array children => children.length % 2 ^ 32
  | _ => 0

def plistArrayGetItem (node : Plist) (n : Nat) : Option Plist :=
  match node with
  | .array children => children[n % 2 ^ 32]?
  | _ => none

/-- `instproxy_status_get_current_list`: the amount, and a copy of the list. -/
def instproxyStatusGetCurrentList (status : Plist) : Except Abort (UInt64 × Option Plist) := do
  let list ← plistDictGetItem status (lit "CurrentList")
  let amount ← dictUint status "CurrentAmount"
  pure (amount.getD (UInt64.ofNat ((list.map plistArrayGetSize).getD 0)), list.map copyNode)

/-- The loop of the callback, with what is still to be appended. -/
def appendItems (currentList : Plist) : Nat → Nat → List Plist → Except Abort (List Plist)
  | 0, _, result => .ok result
  | more + 1, i, result => do
      let item ← plistCopyItem (plistArrayGetItem currentList i)
      appendItems currentList more (i + 1) (result ++ [item])

/-- `instproxy_append_current_list_to_result_cb`. -/
def appendCurrentListToResult (status : Plist) (result : List Plist) : Except Abort (List Plist) := do
  let (amount, list) ← instproxyStatusGetCurrentList status
  match list with
  | none => .ok result
  | some currentList => appendItems currentList amount.toNat 0 result

/-- The array that `instproxy_browse` makes, and hands out if the command succeeds. -/
def browseRun (hasThread : Bool) (x : Sending) (arrivals : List Arrival) :
    Run (List Plist) :=
  instproxyPerformCommand hasThread x appendCurrentListToResult arrivals []

def instproxyBrowse (hasThread : Bool) (x : Sending) (arrivals : List Arrival) :
    Outcome × Option (List Plist) :=
  let run := browseRun hasThread x arrivals
  (run.outcome, if run.outcome = .returned .success then some run.userData else none)

/-! ## What is announced, and what is there -/

/-- A member of a message. -/
def member (status : Plist) (key : String) : Option Plist :=
  match plistDictGetItem status (lit key) with
  | .ok found => found
  | .error _ => none

/-- The items of the `CurrentList`. -/
def currentItems (status : Plist) : List Plist :=
  match member status "CurrentList" with
  | some (.array children) => children
  | _ => []

/-- What arrives.  A message has less than 2^32 bytes, and an item of a list takes one at least. -/
structure BrowseArrivals where
  arrivals : List Arrival
  short : ∀ status, status ∈ taken arrivals → (currentItems status).length < 2 ^ 32

/-- The number of items that a message with a list announces. -/
def announced (status : Plist) : Nat :=
  match member status "CurrentAmount" with
  | some (.scalar (.uint intval) _) => intval.toNat
  | _ => (currentItems status).length

/-- The list and the amount can be read, and belong together. -/
structure AmountRight (status : Plist) : Prop where
  list : Gets status "CurrentList" fun _ => True
  amount : Gets status "CurrentAmount" UintNode
  same : (member status "CurrentList").isSome → announced status = (currentItems status).length

/-- The program goes on, and the array is the items of all the lists that came. -/
structure BrowseRight (hasThread : Bool) (x : Sending) (b : BrowseArrivals) : Prop where
  returns : ∀ a, (browseRun hasThread x b.arrivals).outcome ≠ .aborted a
  result : (browseRun hasThread x b.arrivals).userData =
    (((browseRun hasThread x b.arrivals).received).flatMap currentItems).map copyNode

/-! ## Copies of copies -/

theorem copyScalar_copyScalar (length : Nat) (value : Scalar) :
    copyScalar length (copyScalar length value) = copyScalar length value := by
  cases value with
  | string strval => exact congrArg Scalar.string (cstr_cstr strval)
  | key strval => exact congrArg Scalar.key (cstr_cstr strval)
  | data buff => exact congrArg Scalar.data (by rw [take_take, Nat.min_self])
  | _ => rfl

mutual

theorem copyNode_copyNode : (node : Plist) → copyNode (copyNode node) = copyNode node
  | .scalar value length => congrArg (Plist.scalar · length) (copyScalar_copyScalar length value)
  | .array children => congrArg Plist.array (copyNodes_copyNodes children)
  | .dict children => congrArg Plist.dict (copyNodes_copyNodes children)

theorem copyNodes_copyNodes : (nodes : List Plist) → copyNodes (copyNodes nodes) = copyNodes nodes
  | [] => rfl
  | node :: nodes => by
    rw [copyNodes, copyNodes, copyNode_copyNode node, copyNodes_copyNodes nodes]

end

theorem copyNodes_eq_map (nodes : List Plist) : copyNodes nodes = nodes.map copyNode := by
  induction nodes with
  | nil => rfl
  | cons node nodes ih => rw [copyNodes, ih, map_cons]

/-! ## The callback -/

theorem appendItems_append (currentList : Plist) (more i : Nat) (result : List Plist) :
    appendItems currentList more i result =
      (appendItems currentList more i []).map (result ++ ·) := by
  induction more generalizing i result with
  | zero => exact congrArg Except.ok (append_nil result).symm
  | succ more ih =>
    rw [appendItems, appendItems]
    cases plistCopyItem (plistArrayGetItem currentList i) with
    | error a => rfl
    | ok item =>
      rw [except_bind_ok, except_bind_ok, ih, ih _ ([] ++ [item])]
      cases appendItems currentList more (i + 1) [] with
      | error a => rfl
      | ok items => exact congrArg Except.ok (append_assoc result [item] items)

theorem plistArrayGetItem_copy {children : List Plist} {i : Nat} (hi : i < 2 ^ 32) :
    plistArrayGetItem (copyNode (.array children)) i = children[i]?.map copyNode := by
  rw [copyNode, plistArrayGetItem, Nat.mod_eq_of_lt hi, copyNodes_eq_map, List.getElem?_map]

theorem appendItems_eq {children : List Plist} (hshort : children.length < 2 ^ 32) (more i : Nat)
    (hi : i ≤ children.length) :
    appendItems (copyNode (.array children)) more i [] =
      if i + more ≤ children.length then .ok (((children.drop i).take more).map copyNode)
      else .error .assertion := by
  induction more generalizing i with
  | zero =>
    rw [if_pos (show i + 0 ≤ children.length from hi), take_zero]
    rfl
  | succ more ih =>
    rw [appendItems, plistArrayGetItem_copy (Nat.lt_of_le_of_lt hi hshort)]
    by_cases hlt : i < children.length
    · rw [List.getElem?_eq_getElem hlt, Option.map_some, plistCopyItem, except_bind_ok,
        appendItems_append, ih (i + 1) hlt, copyNode_copyNode, drop_eq_getElem_cons hlt,
        take_succ_cons, Nat.add_right_comm i 1 more, Nat.add_assoc i more 1]
      by_cases hfits : i + (more + 1) ≤ children.length
      · rw [if_pos hfits, if_pos hfits]
        rfl
      · rw [if_neg hfits, if_neg hfits]
        rfl
    · rw [List.getElem?_eq_none (Nat.le_of_not_lt hlt), if_neg (by omega)]
      rfl

theorem appendItems_other {list : Plist} (hlist : ∀ children, list ≠ .array children) (more i : Nat) :
    appendItems (copyNode list) more i [] = if more = 0 then .ok [] else .error .assertion := by
  cases more with
  | zero => rfl
  | succ more =>
    rw [appendItems]
    cases list with
    | array children => exact absurd rfl (hlist children)
    | scalar value length => rfl
    | dict children => rfl

/-- What the callback appends for a message. -/
def adds (status : Plist) : Except Abort (List Plist) := appendCurrentListToResult status []

theorem appendCurrentList_adds (status : Plist) (result : List Plist) :
    appendCurrentListToResult status result = (adds status).map (result ++ ·) := by
  rw [adds, appendCurrentListToResult, appendCurrentListToResult]
  cases instproxyStatusGetCurrentList status with
  | error a => rfl
  | ok r =>
    obtain ⟨amount, list⟩ := r
    cases list with
    | none => exact congrArg Except.ok (append_nil result).symm
    | some currentList => exact appendItems_append currentList amount.toNat 0 result

/-- The integer of a member. -/
def uintOf (status : Plist) (key : String) : Option UInt64 :=
  match member status key with
  | some (.scalar (.uint intval) _) => some intval
  | _ => none

theorem dictUint_eq {status : Plist} {key : String} (h : Gets status key UintNode) :
    dictUint status key = .ok (uintOf status key) := by
  obtain ⟨found, hfound, hnode⟩ := h
  rw [dictUint, uintOf, member, hfound, except_bind_ok]
  cases found with
  | none => rfl
  | some node =>
    obtain ⟨intval, length, rfl, hlength⟩ := hnode _ rfl
    refine except_bind_eq_ok.2 ⟨intval, ?_, rfl⟩
    exact (plistGetUintVal_ok_iff _ _).2 ⟨length, rfl, hlength⟩

theorem amount_eq {status : Plist} (hshort : (currentItems status).length < 2 ^ 32) :
    ((uintOf status "CurrentAmount").getD
      (UInt64.ofNat (((member status "CurrentList").map plistArrayGetSize).getD 0))).toNat =
        announced status := by
  have hsize : (UInt64.ofNat (((member status "CurrentList").map plistArrayGetSize).getD 0)).toNat =
      (currentItems status).length := by
    rw [currentItems] at hshort ⊢
    rw [UInt64.toNat_ofNat']
    split
    · next children hlist =>
      rw [hlist] at hshort ⊢
      have hlength : children.length < 2 ^ 32 := hshort
      simp only [Option.map_some, Option.getD_some, plistArrayGetSize]
      omega
    · next hlist =>
      cases hmember : member status "CurrentList" with
      | none => rfl
      | some list =>
        cases list with
        | array children => exact absurd hmember (hlist children)
        | scalar value length => rfl
        | dict children => rfl
  rw [announced, uintOf]
  split
  · rfl
  · exact hsize

/-- **One message.**  What the callback appends are as many items as are announced, if the list has
so many. -/
theorem adds_eq {status : Plist} (hlist : Gets status "CurrentList" fun _ => True)
    (hamount : Gets status "CurrentAmount" UintNode)
    (hshort : (currentItems status).length < 2 ^ 32) :
    adds status =
      if (member status "CurrentList").isSome ∧ (currentItems status).length < announced status then
        .error .assertion
      else .ok (((currentItems status).take (announced status)).map copyNode) := by
  obtain ⟨list, hfound, -⟩ := hlist
  have hmember : member status "CurrentList" = list := by rw [member, hfound]
  have hcount := amount_eq hshort
  rw [hmember] at hcount
  rw [adds, appendCurrentListToResult, instproxyStatusGetCurrentList, hfound, except_bind_ok,
    dictUint_eq hamount, except_bind_ok]
  cases list with
  | none =>
    rw [hmember, if_neg (by simp), currentItems, hmember]
    exact congrArg Except.ok (congrArg (List.map copyNode) take_nil.symm)
  | some list =>
    show appendItems (copyNode list) _ 0 [] = _
    rw [hcount, hmember]
    simp only [Option.isSome_some, true_and]
    by_cases harray : ∃ children, list = .array children
    · obtain ⟨children, rfl⟩ := harray
      have hitems : currentItems status = children := by rw [currentItems, hmember]
      rw [hitems] at hshort ⊢
      rw [appendItems_eq hshort (announced status) 0 (Nat.zero_le _), Nat.zero_add, drop_zero]
      by_cases hle : announced status ≤ children.length
      · rw [if_pos hle, if_neg (Nat.not_lt.2 hle)]
      · rw [if_neg hle, if_pos (Nat.not_le.1 hle)]
    · have hother : ∀ children, list ≠ .array children := fun children heq =>
        harray ⟨children, heq⟩
      have hitems : currentItems status = [] := by
        rw [currentItems, hmember]
        cases list with
        | array children => exact absurd rfl (hother children)
        | scalar value length => rfl
        | dict children => rfl
      rw [appendItems_other hother, hitems]
      by_cases hzero : announced status = 0
      · rw [if_pos hzero, if_neg (by simp [hzero]), take_nil]
        rfl
      · have hpos : ([] : List Plist).length < announced status := Nat.pos_of_ne_zero hzero
        rw [if_neg hzero, if_pos hpos]

theorem gets_of_adds {status : Plist} {new : List Plist} (h : adds status = .ok new) :
    Gets status "CurrentList" (fun _ => True) ∧ Gets status "CurrentAmount" UintNode := by
  obtain ⟨r, hr, -⟩ := except_bind_eq_ok.1 h
  obtain ⟨list, hlist, hr⟩ := except_bind_eq_ok.1 hr
  obtain ⟨amount, hamount, -⟩ := except_bind_eq_ok.1 hr
  exact ⟨⟨list, hlist, fun _ _ => trivial⟩, (dictUint_ok_iff _ _).1 ⟨amount, hamount⟩⟩

theorem adds_ok_iff {status : Plist} (hshort : (currentItems status).length < 2 ^ 32) :
    (∃ new, adds status = .ok new) ↔
      Gets status "CurrentList" (fun _ => True) ∧ Gets status "CurrentAmount" UintNode ∧
        ((member status "CurrentList").isSome → announced status ≤ (currentItems status).length) := by
  constructor
  · rintro ⟨new, hnew⟩
    obtain ⟨hlist, hamount⟩ := gets_of_adds hnew
    refine ⟨hlist, hamount, fun hsome => Nat.not_lt.1 fun hlt => ?_⟩
    rw [adds_eq hlist hamount hshort, if_pos ⟨hsome, hlt⟩] at hnew
    cases hnew
  · rintro ⟨hlist, hamount, hle⟩
    rw [adds_eq hlist hamount hshort, if_neg fun h => absurd h.2 (Nat.not_lt.2 (hle h.1))]
    exact ⟨_, rfl⟩

/-! ## The array -/

theorem flatMap_eq_iff {α β : Type} (l : List α) {f g : α → List β} (h : ∀ a ∈ l, f a <+: g a) :
    l.flatMap f = l.flatMap g ↔ ∀ a ∈ l, f a = g a := by
  induction l with
  | nil => exact iff_of_true rfl nofun
  | cons a l ih =>
    have hl : ∀ a ∈ l, f a <+: g a := fun b hb => h b (mem_cons_of_mem a hb)
    have hlength : ∀ l : List α, (∀ a ∈ l, f a <+: g a) →
        (l.flatMap f).length ≤ (l.flatMap g).length := by
      intro l hl
      induction l with
      | nil => exact Nat.le_refl _
      | cons b l ih =>
        rw [flatMap_cons, flatMap_cons, length_append, length_append]
        exact Nat.add_le_add (hl b mem_cons_self).length_le
          (ih fun c hc => hl c (mem_cons_of_mem b hc))
    rw [flatMap_cons, flatMap_cons, forall_mem_cons, ← ih hl]
    constructor
    · intro heq
      have hsum := congrArg List.length heq
      rw [length_append, length_append] at hsum
      have hhead := (h a mem_cons_self).length_le
      have htail := hlength l hl
      exact append_inj heq (by omega)
    · rintro ⟨hhead, htail⟩
      rw [hhead, htail]

/-- **Browsing.**  The array is the items of all lists exactly if every message can be read, and
announces the length of its list or nothing. -/
theorem browseRight_iff (hasThread : Bool) (x : Sending) (b : BrowseArrivals) :
    BrowseRight hasThread x b ↔
      hasThread = true ∨ ∀ status ∈ taken b.arrivals, Readable status ∧ AmountRight status := by
  cases hasThread with
  | true => exact iff_of_true ⟨nofun, rfl⟩ (.inl rfl)
  | false =>
    rw [or_iff_right Bool.false_ne_true]
    by_cases hread : ∀ status ∈ taken b.arrivals, Readable status ∧ ∃ new, adds status = .ok new
    · have hrun := loop_appends appendCurrentList_adds b.arrivals [] hread
      have hitems : ∀ status ∈ taken b.arrivals, (adds status).toOption.getD [] =
          ((currentItems status).take (announced status)).map copyNode := by
        intro status hstatus
        obtain ⟨new, hnew⟩ := (hread status hstatus).2
        obtain ⟨hlist, hamount⟩ := gets_of_adds hnew
        rw [hnew]
        rw [adds_eq hlist hamount (b.short status hstatus)] at hnew
        split at hnew
        · cases hnew
        · exact (Except.ok.inj hnew).symm
      have hrun' : browseRun false x b.arrivals = ⟨taken b.arrivals, (taken b.arrivals).flatMap
          fun status => ((currentItems status).take (announced status)).map copyNode,
          ending b.arrivals⟩ := by
        rw [← flatMap_congr hitems]
        exact hrun
      have hprefix : ∀ status ∈ taken b.arrivals,
          ((currentItems status).take (announced status)).map copyNode <+:
            (currentItems status).map copyNode := fun status _ => ( take_prefix _ _).map _
      have hresult : (browseRun false x b.arrivals).userData =
          ((browseRun false x b.arrivals).received.flatMap currentItems).map copyNode ↔
            ∀ status ∈ taken b.arrivals,
              ((currentItems status).take (announced status)).map copyNode =
                (currentItems status).map copyNode := by
        rw [hrun', map_flatMap]
        exact flatMap_eq_iff _ hprefix
      constructor
      · rintro ⟨-, h⟩ status hstatus
        obtain ⟨hreadable, hadds⟩ := hread status hstatus
        obtain ⟨hlist, hamount, hle⟩ := (adds_ok_iff (b.short status hstatus)).1 hadds
        refine ⟨hreadable, hlist, hamount, fun hsome => Nat.le_antisymm (hle hsome) ?_⟩
        have hlength := congrArg List.length (hresult.1 h status hstatus)
        rw [length_map, length_map, length_take] at hlength
        omega
      · intro h
        refine ⟨fun a => ?_, hresult.2 fun status hstatus => ?_⟩
        · rw [hrun']
          exact ending_ne_aborted b.arrivals a
        · obtain ⟨-, hlist, hamount, hsame⟩ := h status hstatus
          by_cases hsome : (member status "CurrentList").isSome
          · rw [hsame hsome, take_length]
          · rw [Option.not_isSome_iff_eq_none] at hsome
            have hnil : currentItems status = [] := by rw [currentItems, hsome]
            rw [hnil, take_nil]
    · obtain ⟨a, ha⟩ := loop_aborts appendCurrentList_adds b.arrivals [] hread
      refine iff_of_false (fun h => h.returns a ha) fun h => hread fun status hstatus => ?_
      obtain ⟨hreadable, hamount⟩ := h status hstatus
      refine ⟨hreadable, (adds_ok_iff (b.short status hstatus)).2 ⟨hamount.list, hamount.amount, ?_⟩⟩
      exact fun hsome => (hamount.same hsome).le

/-- A list of one item, with a `CurrentAmount` and the end of the command. -/
def browseMessage (amount : UInt64) : Plist :=
  .dict [.scalar (.key (lit "CurrentAmount")) 13, .scalar (.uint amount) 8,
    .scalar (.key (lit "CurrentList")) 11, .array [.scalar (.string (lit "com.example.app")) 15],
    .scalar (.key (lit "Status")) 6, .scalar (.string (lit "Complete")) 8]

def browseArrivals (amount : UInt64) : BrowseArrivals where
  arrivals := [.message (browseMessage amount)]
  short status hstatus := by
    rw [taken, mem_cons] at hstatus
    rcases hstatus with rfl | hstatus
    · exact Nat.lt_of_le_of_lt (show _ ≤ 1 from Nat.le_refl 1) (by decide)
    · split at hstatus
      · cases hstatus
      · cases hstatus

/-- Two items are announced and one is there, and the program ends; none is announced, and it is
left out. -/
theorem browseRight_refuted :
    (browseRun false wholeCommand (browseArrivals 2).arrivals).outcome = .aborted .assertion ∧
      ¬ BrowseRight false wholeCommand (browseArrivals 2) ∧
      (instproxyBrowse false wholeCommand (browseArrivals 0).arrivals).1 = .returned .success ∧
      ¬ BrowseRight false wholeCommand (browseArrivals 0) := by
  have hmore : (browseRun false wholeCommand (browseArrivals 2).arrivals).outcome =
      .aborted .assertion := by decide +kernel
  have hless : (instproxyBrowse false wholeCommand (browseArrivals 0).arrivals).1 =
      .returned .success := by decide +kernel
  refine ⟨hmore, fun h => h.returns _ hmore, hless, fun h => ?_⟩
  have hlength := congrArg List.length h.result
  revert hlength
  decide +kernel

end IDeviceStack.Libimobiledevice.InstallationProxy
