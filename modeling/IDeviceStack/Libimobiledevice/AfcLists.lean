/-
# `Libimobiledevice.AfcLists` — lists of strings in a reply

`make_strings_list` of `afc.c` splits a reply at its `NUL`s, and `afc_get_device_info_key`
looks a key up in such a list, in which a key stands in front of its value.

* The tokens are a block of their own: to read behind its end is a fault.  So is a write
  behind the end of the list, the place for which is counted in 32 bits.
* Of `afc_get_device_info` this is what comes behind `afc_receive_data`.

**Proved here.**  `deviceInfo_iff`.
-/
import IDeviceStack.Libimobiledevice.Afc

namespace IDeviceStack.Libimobiledevice

open List

def AFC_E_INVALID_ARG : Nat := 7

/-- What goes wrong with a list of strings. -/
inductive ListFault where
  /-- A byte behind the tokens was read. -/
  | overread
  /-- An entry behind the end of the list was written. -/
  | overrun
  /-- The list, or an entry of it, is `NULL`. -/
  | null
  deriving DecidableEq

/-! ## Splitting -/

def countNullspaces (string : List UInt8) : Nat := string.count 0

/-- `strdup` at `j` in a block of bytes. -/
def strdupAt (tokens : List UInt8) (j : Nat) : Except ListFault (List UInt8) :=
  if 0 ∈ tokens.drop j then .ok ((tokens.drop j).takeWhile (· ≠ 0)) else .error .overread

/-- The loop of `make_strings_list`, with `nulls - i` turns left. -/
def splitLoop (tokens : List UInt8) (place : Nat) : Nat → Nat → Nat →
    Except ListFault (List (List UInt8))
  | 0, i, _ => if i < place then .ok [] else .error .overrun
  | turns + 1, i, j =>
    if i < place then do
      let token ← strdupAt tokens j
      let list ← splitLoop tokens place turns (i + 1) (j + (token.length + 1))
      pure (token :: list)
    else .error .overrun

def makeStringsList (tokens : List UInt8) : Except ListFault (Option (List (List UInt8))) :=
  if tokens = [] then .ok none
  else do
    let nulls := countNullspaces tokens
    let list ← splitLoop tokens ((nulls + 1) % 2 ^ 32) nulls 0 0
    pure (some list)

/-! ## Looking a key up -/

/-- The first loop of `afc_get_device_info_key`: `*value`. -/
def searchKey (key : List UInt8) : List (List UInt8) → Except ListFault (Option (List UInt8))
  | [] => .ok none
  | entry :: rest =>
    if entry = key then
      match rest with
      | value :: _ => .ok (some value)
      | [] => .error .null
    else searchKey key rest

/-- `afc_get_device_info_key`, for the result and the data of `afc_receive_data`. -/
def afcGetDeviceInfoKey (key : Option (List UInt8)) (ret : Nat) (data : List UInt8) :
    Except ListFault (Nat × Option (List UInt8)) :=
  match key with
  | none => .ok (AFC_E_INVALID_ARG, none)
  | some key =>
    if ret ≠ AFC_E_SUCCESS then .ok (ret, none)
    else do
      match ← makeStringsList data with
      | none => .error .null
      | some kvps => do
          let value ← searchKey key kvps
          pure (ret, value)

/-! ## What they are for -/

/-- The `NUL`-terminated tokens of a block. -/
def terminatedTokens (tokens : List UInt8) : List (List UInt8) := (tokens.splitOn 0).dropLast

/-- The value behind a key, in a list of keys and values in turn. -/
def valueOfKey (key : List UInt8) : List (List UInt8) → Option (List UInt8)
  | k :: v :: rest => if k = key then some v else valueOfKey key rest
  | _ => none

/-- The tokens are split, and the key is looked up, as it should be. -/
structure DeviceInfoRight (key : List UInt8) (data : List UInt8) : Prop where
  split : makeStringsList data = .ok (if data = [] then none else some (terminatedTokens data))
  found : afcGetDeviceInfoKey (some key) AFC_E_SUCCESS data =
    .ok (AFC_E_SUCCESS, valueOfKey key (terminatedTokens data))

variable {tokens key : List UInt8}

/-- What the search comes to is what it should come to: no string is like the key, or the first one
that is has a string behind it, and this is the value of the key. -/
def FindsValue (key : List UInt8) (list : List (List UInt8)) : Prop :=
  key ∉ list ∨ ∃ front value back, list = front ++ key :: value :: back ∧ key ∉ front ∧
    (front.length % 2 = 0 ∨ valueOfKey key list = some value)

/-! ## The tokens -/

theorem terminatedTokens_of_not_mem (h : 0 ∉ tokens) : terminatedTokens tokens = [] := by
  rw [terminatedTokens, splitOn_eq_singleton h]
  rfl

theorem terminatedTokens_cons {w : List UInt8} (h : 0 ∉ w) (rest : List UInt8) :
    terminatedTokens (w ++ 0 :: rest) = w :: terminatedTokens rest := by
  rw [terminatedTokens, splitOn_append_cons_self_of_not_mem h,
    dropLast_cons_of_ne_nil (splitOn_ne_nil 0 rest)]
  rfl

theorem splitLoop_eq {place turns i j : Nat} (hcount : (tokens.drop j).count 0 = turns)
    (hplace : i + turns < place) :
    splitLoop tokens place turns i j = .ok (terminatedTokens (tokens.drop j)) := by
  induction turns generalizing i j with
  | zero =>
    have hnone : 0 ∉ tokens.drop j := count_eq_zero.1 hcount
    rw [splitLoop, if_pos (by omega), terminatedTokens_of_not_mem hnone]
  | succ turns ih =>
    have hmem : 0 ∈ tokens.drop j := count_pos_iff.1 (by omega)
    obtain ⟨w, rest, hsplit, hw⟩ := eq_append_cons_of_mem hmem
    have htoken : strdupAt tokens j = .ok w := by
      rw [strdupAt, if_pos hmem, hsplit, takeWhile_append_of_pos]
      · simp
      · intro c hc
        simpa using fun h : c = 0 => hw (h ▸ hc)
    have hrest : tokens.drop (j + (w.length + 1)) = rest := by
      rw [← drop_drop, hsplit, append_cons, drop_left' (by simp)]
    have hcount' : rest.count 0 = turns := by
      rw [hsplit, count_append, count_cons_self, count_eq_zero.2 hw] at hcount
      omega
    have hturns := @ih (i + 1) (j + (w.length + 1)) (by rw [hrest, hcount']) (by omega)
    rw [splitLoop, if_pos (by omega), htoken, hsplit, terminatedTokens_cons hw, ← hrest]
    simp only [bind, Except.bind, hturns]
    rfl

theorem makeStringsList_eq (hcount : countNullspaces tokens + 1 < 2 ^ 32) :
    makeStringsList tokens = .ok (if tokens = [] then none else some (terminatedTokens tokens)) := by
  by_cases hempty : tokens = []
  · rw [makeStringsList, if_pos hempty, if_pos hempty]
  · have hloop := @splitLoop_eq tokens (countNullspaces tokens + 1) (countNullspaces tokens) 0 0 rfl
      (by omega)
    rw [makeStringsList, if_neg hempty, if_neg hempty]
    simp only [Nat.mod_eq_of_lt hcount, hloop, drop_zero]
    rfl

theorem makeStringsList_wrapped (hcount : countNullspaces tokens + 1 = 2 ^ 32) :
    makeStringsList tokens = .error .overrun := by
  have hempty : tokens ≠ [] := by
    rintro rfl
    simp [countNullspaces] at hcount
  have hloop : ∀ turns, splitLoop tokens 0 turns 0 0 = .error .overrun := by
    intro turns
    cases turns <;> rfl
  rw [makeStringsList, if_neg hempty]
  simp only [hcount, Nat.mod_self, hloop]
  rfl

/-! ## The key -/

theorem searchKey_cons_ne {entry : List UInt8} (h : entry ≠ key) (rest : List (List UInt8)) :
    searchKey key (entry :: rest) = searchKey key rest := by
  rw [searchKey.eq_def]
  exact if_neg h

theorem searchKey_cons_self (key : List UInt8) (rest : List (List UInt8)) :
    searchKey key (key :: rest) =
      match rest with
      | value :: _ => .ok (some value)
      | [] => .error .null := by
  rw [searchKey.eq_def]
  exact if_pos rfl

theorem searchKey_not_mem {list : List (List UInt8)} (h : key ∉ list) :
    searchKey key list = .ok none := by
  induction list with
  | nil => rfl
  | cons entry rest ih =>
    obtain ⟨hne, hrest⟩ := not_or.1 (mem_cons.not.1 h)
    rw [searchKey_cons_ne (Ne.symm hne), ih hrest]

theorem searchKey_append {front : List (List UInt8)} (h : key ∉ front) (rest : List (List UInt8)) :
    searchKey key (front ++ rest) = searchKey key rest := by
  induction front with
  | nil => rfl
  | cons entry front ih =>
    obtain ⟨hne, hfront⟩ := not_or.1 (mem_cons.not.1 h)
    rw [cons_append, searchKey_cons_ne (Ne.symm hne), ih hfront]

theorem valueOfKey_not_mem {list : List (List UInt8)} (h : key ∉ list) :
    valueOfKey key list = none := by
  fun_induction valueOfKey key list with
  | case1 => simp at h
  | case2 k v rest hne ih => exact ih fun hmem => h (by simp [hmem])
  | case3 => rfl

theorem valueOfKey_append {value : List UInt8} {front back : List (List UInt8)} (h : key ∉ front)
    (heven : front.length % 2 = 0) :
    valueOfKey key (front ++ key :: value :: back) = some value := by
  fun_induction valueOfKey key front with
  | case1 => simp at h
  | case2 k v rest hne ih =>
    rw [cons_append, cons_append, valueOfKey, if_neg hne]
    refine ih (fun hmem => h (by simp [hmem])) ?_
    simp only [length_cons] at heven
    omega
  | case3 front hshort =>
    match front, hshort with
    | [], _ => rw [nil_append, valueOfKey, if_pos rfl]
    | [_], _ => simp at heven
    | k :: v :: rest, hshort => exact absurd rfl (hshort k v rest)

theorem first_unique {key : List UInt8} {front front' rest rest' : List (List UInt8)}
    (h : key ∉ front) (h' : key ∉ front') (heq : front ++ key :: rest = front' ++ key :: rest') :
    front = front' ∧ rest = rest' := by
  induction front generalizing front' with
  | nil =>
    cases front' with
    | nil => exact ⟨rfl, (List.cons.inj heq).2⟩
    | cons entry front' =>
      obtain ⟨rfl, -⟩ := List.cons.inj heq
      exact absurd mem_cons_self h'
  | cons entry front ih =>
    cases front' with
    | nil =>
      obtain ⟨rfl, -⟩ := List.cons.inj heq
      exact absurd mem_cons_self h
    | cons entry' front' =>
      obtain ⟨rfl, htail⟩ := List.cons.inj heq
      obtain ⟨rfl, hrest⟩ := ih (fun hmem => h (.tail _ hmem)) (fun hmem => h' (.tail _ hmem)) htail
      exact ⟨rfl, hrest⟩

/-- The search comes to the value of the key if and only if the first string that is like the key
has this value behind it. -/
theorem searchKey_iff (key : List UInt8) (list : List (List UInt8)) :
    searchKey key list = .ok (valueOfKey key list) ↔ FindsValue key list := by
  by_cases hmem : key ∈ list
  · obtain ⟨front, rest, rfl, hfront⟩ := eq_append_cons_of_mem hmem
    rw [searchKey_append hfront, searchKey_cons_self]
    -- there is only one first string that is like the key
    have hfirst : ∀ {front' rest'}, front ++ key :: rest = front' ++ key :: rest' →
        key ∉ front' → front = front' ∧ rest = rest' := by
      intro front' rest' hsplit hfront'
      exact first_unique hfront hfront' hsplit
    cases rest with
    | nil =>
      constructor
      · nofun
      · rintro (h | ⟨front', value, back, hsplit, hfront', -⟩)
        · exact absurd hmem h
        · cases (hfirst hsplit hfront').2
    | cons value back =>
      constructor
      · intro h
        have hvalue : some value = valueOfKey key (front ++ key :: value :: back) := by
          simpa using h
        exact .inr ⟨front, value, back, rfl, hfront, .inr hvalue.symm⟩
      · rintro (h | ⟨front', value', back', hsplit, hfront', hright⟩)
        · exact absurd hmem h
        · obtain ⟨rfl, hrest⟩ := hfirst hsplit hfront'
          obtain ⟨rfl, rfl⟩ := List.cons.inj hrest
          obtain heven | hvalue := hright
          · rw [valueOfKey_append hfront heven]
          · rw [hvalue]
  · rw [searchKey_not_mem hmem, valueOfKey_not_mem hmem]
    exact ⟨fun _ => .inl hmem, fun _ => rfl⟩

/-! ## Both -/

/-- **Lists of keys and values.** A reply is split into its tokens and a key is found with its value
if and only if the reply is not empty, it has not as many `NUL`s as a 32-bit count can hold, and the
search finds the value of the key. -/
theorem deviceInfo_iff (key data : List UInt8) (hlength : data.length < 2 ^ 32) :
    DeviceInfoRight key data ↔
      data ≠ [] ∧ countNullspaces data ≠ 2 ^ 32 - 1 ∧ FindsValue key (terminatedTokens data) := by
  have hle : countNullspaces data ≤ data.length := count_le_length
  by_cases hwrap : countNullspaces data = 2 ^ 32 - 1
  · have hsplit := @makeStringsList_wrapped data (by omega)
    refine ⟨fun h => ?_, fun h => absurd hwrap h.2.1⟩
    cases hsplit.symm.trans h.split
  · have hsplit := @makeStringsList_eq data (by omega)
    by_cases hempty : data = []
    · refine ⟨fun h => ?_, fun h => absurd hempty h.1⟩
      have hnull : afcGetDeviceInfoKey (some key) AFC_E_SUCCESS data = .error .null := by
        rw [hempty]
        rfl
      cases hnull.symm.trans h.found
    · have hfound : afcGetDeviceInfoKey (some key) AFC_E_SUCCESS data =
          (searchKey key (terminatedTokens data)).map fun value => (AFC_E_SUCCESS, value) := by
        rw [if_neg hempty] at hsplit
        rw [afcGetDeviceInfoKey, if_neg (not_not.2 rfl), hsplit]
        show (searchKey key (terminatedTokens data) >>= fun value => pure (AFC_E_SUCCESS, value)) = _
        cases searchKey key (terminatedTokens data) <;> rfl
      have hsearch : afcGetDeviceInfoKey (some key) AFC_E_SUCCESS data =
          .ok (AFC_E_SUCCESS, valueOfKey key (terminatedTokens data)) ↔
            FindsValue key (terminatedTokens data) := by
        rw [hfound, ← searchKey_iff]
        cases searchKey key (terminatedTokens data) <;> simp [Except.map]
      exact ⟨fun h => ⟨hempty, hwrap, hsearch.1 h.found⟩, fun h => ⟨hsplit, hsearch.2 h.2.2⟩⟩

/-- A list of two keys with their values. -/
def deviceInfo : List UInt8 := [65, 0, 66, 0, 66, 0, 67, 0]

/-- The first key is found with its value. -/
theorem deviceInfo_first : DeviceInfoRight [65] deviceInfo :=
  (deviceInfo_iff [65] deviceInfo (by decide)).mpr ⟨by decide, by decide,
    .inr ⟨[], [66], [[66], [67]], by decide +kernel, not_mem_nil, .inl rfl⟩⟩

/-- The second key is found where it stands as the value of the first; an empty reply and a key
without a value are not survived. -/
theorem deviceInfo_refuted : ¬ DeviceInfoRight [66] deviceInfo ∧ ¬ DeviceInfoRight [65] [] ∧
    ¬ DeviceInfoRight [65] [65, 0] := by
  refine ⟨fun h => ?_, fun h => ?_, fun h => ?_⟩
  · have := h.found
    revert this
    decide +kernel
  · cases h.found
  · have := h.found
    revert this
    decide +kernel

end IDeviceStack.Libimobiledevice
