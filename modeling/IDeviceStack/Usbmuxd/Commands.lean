/-
# `Usbmuxd.Commands` — a plist from a client

`client_command` for a `MESSAGE_PLIST` up to what it does for the request: `plist_from_xml`
on the payload, and what is looked up in the dictionary.  The accessors of `libplist` abort
the daemon where an assertion of theirs fails.

`plist_get_uint_val` asserts that there is a length, which there is not if the node is no
integer; `client_command` does not look at the type of the `DeviceID` and the `PortNumber`.
`plist_get_string_val` asserts that the string has the length that the node says, which it
has not if there is a `NUL` in it; the reader lets these pass.
-/
import IDeviceStack.Libplist.Values
import IDeviceStack.Libplist.Xplist.Wellformed
import IDeviceStack.Usbmuxd.Daemon

namespace IDeviceStack.Usbmuxd.Daemon

open Libplist hiding plistDictGetItem
open Libplist.Values Libplist.Xplist

/-! ## Requests -/

/-- `plist_dict_get_string_val` of `client.c`. -/
def plistDictGetStringVal (dict : Plist) (key : List UInt8) : Except Abort (Option (List UInt8)) :=
  if dict.nodeType ≠ .dict then .ok none
  else do
    match ← plistDictGetItem dict key with
    | none => .ok none
    | some item =>
      if item.nodeType ≠ .string then .ok none
      else do
        let str ← plistGetStringVal item none
        .ok (some str)

/-- A `Connect`. -/
def connectRequest (dict : Plist) : Except Abort PlistRequest := do
  match ← plistDictGetItem dict (lit "DeviceID") with
  | none => .ok (.connect none none)
  | some node => do
      let deviceId ← plistGetUintVal node 0
      match ← plistDictGetItem dict (lit "PortNumber") with
      | none => .ok (.connect (some (deviceId.toNat % 2 ^ 32)) none)
      | some node => do
          let portnum ← plistGetUintVal node 0
          .ok (.connect (some (deviceId.toNat % 2 ^ 32)) (some (BitVec.ofNat 16 portnum.toNat)))

/-- A `SavePairRecord`. -/
def saveRequest (dict : Plist) : Except Abort PlistRequest := do
  let recordId ← plistDictGetStringVal dict (lit "PairRecordID")
  match ← plistDictGetItem dict (lit "PairRecordData") with
  | none => .ok (.savePairRecord recordId none)
  | some rdata =>
    if rdata.nodeType = .data then .ok (.savePairRecord recordId (plistGetDataVal rdata none))
    else .ok (.savePairRecord recordId none)

/-- What a `MessageType` asks for. -/
def messageRequest (dict : Plist) (message : List UInt8) : Except Abort PlistRequest :=
  if message = lit "Listen" then .ok .listen
  else if message = lit "Connect" then connectRequest dict
  else if message = lit "ListDevices" then .ok .listDevices
  else if message = lit "ReadBUID" then .ok .readBuid
  else if message = lit "ReadPairRecord" then do
    let recordId ← plistDictGetStringVal dict (lit "PairRecordID")
    .ok (.readPairRecord recordId)
  else if message = lit "SavePairRecord" then saveRequest dict
  else if message = lit "DeletePairRecord" then do
    let recordId ← plistDictGetStringVal dict (lit "PairRecordID")
    .ok (.deletePairRecord recordId)
  else .ok .unexpected

/-- The request in a plist. -/
def requestOf (dict : Plist) : Except Abort PlistRequest := do
  match ← plistDictGetItem dict (lit "MessageType") with
  | none => .ok .unreadable
  | some node =>
    if node.nodeType ≠ .string then .ok .unreadable
    else do
      let message ← plistGetStringVal node none
      messageRequest dict message

/-- Why the daemon does not get to the request. -/
inductive CommandStop where
  /-- `plist_from_xml` does not return. -/
  | reader (s : Xplist.Stop)
  | abort (a : Abort)
  deriving DecidableEq, Repr

/-- `plist_from_xml`, with as many turns as there are bytes. -/
def readPayload (conv : Conv) (payload : List UInt8) : Except CommandStop (Option Plist) :=
  match plistFromXml conv payload payload.length (payload.length + 1) with
  | .error s => .error (.reader s)
  | .ok (_, none) => .ok none
  | .ok (nodes, some root) => .ok (treeAt nodes nodes.length root)

/-- `client_command` for a `MESSAGE_PLIST`, up to the request. -/
def plistMessage (conv : Conv) (payload : List UInt8) : Except CommandStop PlistRequest :=
  match readPayload conv payload with
  | .error s => .error s
  | .ok none => .ok .unreadable
  | .ok (some dict) => (requestOf dict).mapError .abort

/-! ## When there is a request -/

/-- The item for a key, if it is found. -/
def item (dict : Plist) (key : List UInt8) : Option Plist :=
  match plistDictGetItem dict key with
  | .ok found => found
  | .error _ => none

/-- The `MessageType` is `message`. -/
def Says (dict : Plist) (message : List UInt8) : Prop :=
  ∃ length, item dict (lit "MessageType") = some (.scalar (.string message) length)

/-- Nothing in the dictionary makes an accessor fail. -/
structure Harmless (dict : Plist) : Prop where
  message : ∀ s, Says dict s → NulFree s
  device : Says dict (lit "Connect") → ∀ node, item dict (lit "DeviceID") = some node →
    node.nodeType = .uint
  port : Says dict (lit "Connect") → (item dict (lit "DeviceID")).isSome → ∀ node,
    item dict (lit "PortNumber") = some node → node.nodeType = .uint
  record : Says dict (lit "ReadPairRecord") ∨ Says dict (lit "SavePairRecord") ∨
    Says dict (lit "DeletePairRecord") → ∀ s length,
      item dict (lit "PairRecordID") = some (.scalar (.string s) length) → NulFree s

section Requests

variable {dict node : Plist} {key : List UInt8}

theorem dictScan_pairs (key : List UInt8) (pairs : List (List UInt8 × Plist)) :
    ∃ found, dictScan key (pairs.flatMap fun p => [.scalar (.key p.1) p.1.length, p.2]) =
        .ok found ∧
      ∀ t, found = some t → ∃ p ∈ pairs, p.2 = t := by
  induction pairs with
  | nil => exact ⟨none, rfl, fun _ h => by cases h⟩
  | cons p pairs ih =>
    rw [List.flatMap_cons, List.cons_append, List.singleton_append, dictScan]
    split
    · refine ⟨_, rfl, fun t ht => ⟨p, List.mem_cons_self, ?_⟩⟩
      exact Option.some.inj ht
    · obtain ⟨found, hfound, hmem⟩ := ih
      refine ⟨found, hfound, fun t ht => ?_⟩
      obtain ⟨q, hq, hqt⟩ := hmem t ht
      exact ⟨q, List.mem_cons_of_mem p hq, hqt⟩

/-- **The assertion in `plist_dict_get_item` holds**, whatever was read. -/
theorem plistDictGetItem_read (h : FromXml dict) (key : List UInt8) :
    plistDictGetItem dict key = .ok (item dict key) ∧
      ∀ t, item dict key = some t → FromXml t := by
  cases h with
  | scalar _ => exact ⟨rfl, fun _ h => by cases h⟩
  | array _ => exact ⟨rfl, fun _ h => by cases h⟩
  | @dict pairs _ htrees =>
    obtain ⟨found, hfound, hmem⟩ := dictScan_pairs key pairs
    have hitem : item (.dict (pairs.flatMap fun p => [.scalar (.key p.1) p.1.length, p.2])) key =
        found := by
      rw [item, plistDictGetItem, hfound]
    rw [hitem]
    refine ⟨hfound, fun t ht => ?_⟩
    obtain ⟨p, hp, hpt⟩ := hmem t ht
    exact hpt ▸ htrees p hp

theorem strlen_eq_iff (s : List UInt8) : s.length = strlen (cstr s) ↔ NulFree s := by
  rw [strlen, cstr_cstr]
  constructor
  · intro h
    have hcut : cstr s = s := (List.takeWhile_prefix _).eq_of_length h.symm
    rw [← hcut]
    exact nulFree_cstr s
  · intro h
    rw [cstr_of_nulFree h]

theorem plistGetStringVal_read {s : List UInt8} {length : Nat}
    (h : FromXml (.scalar (.string s) length)) :
    plistGetStringVal (.scalar (.string s) length) none =
      if NulFree s then .ok s else .error .assertion := by
  cases h with
  | scalar hhonest =>
    have hlen : length = s.length := hhonest
    rw [plistGetStringVal]
    simp only [hlen, strlen_eq_iff]
    by_cases hs : NulFree s
    · rw [if_pos hs, if_pos hs, cstr_of_nulFree hs]
    · rw [if_neg hs, if_neg hs]

theorem plistGetStringVal_ok {s : List UInt8} {length : Nat}
    (h : FromXml (.scalar (.string s) length)) :
    (∃ str, plistGetStringVal (.scalar (.string s) length) none = .ok str) ↔ NulFree s := by
  rw [plistGetStringVal_read h]
  by_cases hs : NulFree s
  · exact ⟨fun _ => hs, fun _ => ⟨s, if_pos hs⟩⟩
  · rw [if_neg hs]
    exact ⟨fun ⟨_, h⟩ => (nomatch h), fun h => (hs h).elim⟩

theorem plistGetUintVal_other (hnode : node.nodeType ≠ .uint) (val : UInt64) :
    plistGetUintVal node val = .error .assertion := by
  cases node with
  | array _ => rfl
  | dict _ => rfl
  | scalar value length =>
    cases value with
    | uint _ => exact (hnode rfl).elim
    | _ => rfl

theorem plistGetUintVal_ok (h : FromXml node) (val : UInt64) :
    (∃ n, plistGetUintVal node val = .ok n) ↔ node.nodeType = .uint := by
  constructor
  · rintro ⟨n, hn⟩
    by_contra hnode
    rw [plistGetUintVal_other hnode] at hn
    cases hn
  · intro hnode
    cases h with
    | array _ => cases hnode
    | dict _ _ => cases hnode
    | @scalar value length hhonest =>
      cases value with
      | uint intval => exact ⟨intval, if_pos hhonest⟩
      | _ => cases hnode

theorem nodeType_string : node.nodeType = .string ↔
    ∃ s length, node = .scalar (.string s) length := by
  constructor
  · intro h
    cases node with
    | array _ => cases h
    | dict _ => cases h
    | scalar value length =>
      cases value with
      | string s => exact ⟨s, length, rfl⟩
      | _ => cases h
  · rintro ⟨s, length, rfl⟩
    rfl

theorem returns_bind {ε α β : Type} {x : Except ε α} {f : α → Except ε β} :
    (∃ b, (x >>= f) = .ok b) ↔ ∃ a, x = .ok a ∧ ∃ b, f a = .ok b := by
  cases x with
  | error e => exact ⟨fun ⟨_, h⟩ => (nomatch h), fun ⟨_, h, _⟩ => (nomatch h)⟩
  | ok a => exact ⟨fun h => ⟨a, rfl, h⟩, fun ⟨a', h, hb⟩ => by cases h; exact hb⟩

theorem plistDictGetStringVal_ok (h : FromXml dict) (key : List UInt8) :
    (∃ str, plistDictGetStringVal dict key = .ok str) ↔
      ∀ s length, item dict key = some (.scalar (.string s) length) → NulFree s := by
  obtain ⟨hget, hread⟩ := plistDictGetItem_read h key
  rw [plistDictGetStringVal]
  by_cases hdict : dict.nodeType = .dict
  · rw [if_neg (not_not.mpr hdict), hget]
    change (∃ str, (match item dict key with
      | none => _
      | some item => _ : Except Abort (Option (List UInt8))) = .ok str) ↔ _
    cases hitem : item dict key with
    | none => exact ⟨fun _ _ _ h => (nomatch h), fun _ => ⟨none, rfl⟩⟩
    | some node =>
      dsimp only
      by_cases hnode : node.nodeType = .string
      · rw [if_neg (not_not.mpr hnode), returns_bind]
        obtain ⟨s, length, rfl⟩ := nodeType_string.mp hnode
        have hval := plistGetStringVal_ok (hread _ hitem)
        constructor
        · rintro ⟨str, hstr, -⟩ s' length' heq
          cases heq
          exact hval.mp ⟨str, hstr⟩
        · intro hfree
          obtain ⟨str, hstr⟩ := hval.mpr (hfree s length rfl)
          exact ⟨str, hstr, some str, rfl⟩
      · rw [if_pos hnode]
        refine ⟨fun _ s length heq => ?_, fun _ => ⟨none, rfl⟩⟩
        cases heq
        exact (hnode rfl).elim
  · rw [if_pos hdict]
    refine ⟨fun _ s length hitem => ?_, fun _ => ⟨none, rfl⟩⟩
    cases dict with
    | dict _ => exact (hdict rfl).elim
    | array _ => cases hitem
    | scalar _ _ => cases hitem

theorem connectRequest_ok (h : FromXml dict) : (∃ req, connectRequest dict = .ok req) ↔
    (∀ node, item dict (lit "DeviceID") = some node → node.nodeType = .uint) ∧
      ((item dict (lit "DeviceID")).isSome →
        ∀ node, item dict (lit "PortNumber") = some node → node.nodeType = .uint) := by
  obtain ⟨hdevice, hreadDevice⟩ := plistDictGetItem_read h (lit "DeviceID")
  obtain ⟨hport, hreadPort⟩ := plistDictGetItem_read h (lit "PortNumber")
  rw [connectRequest, returns_bind, hdevice]
  cases hid : item dict (lit "DeviceID") with
  | none => exact ⟨fun _ => ⟨fun _ h => (nomatch h), fun h => (nomatch h)⟩,
      fun _ => ⟨none, rfl, _, rfl⟩⟩
  | some device =>
    have hdev := plistGetUintVal_ok (hreadDevice _ hid) 0
    constructor
    · rintro ⟨_, ⟨⟩, hreq⟩
      obtain ⟨id, hval, hreq⟩ := returns_bind.mp hreq
      refine ⟨fun node heq => Option.some.inj heq ▸ hdev.mp ⟨id, hval⟩, fun _ node hnode => ?_⟩
      obtain ⟨_, hget, hreq⟩ := returns_bind.mp hreq
      rw [hport, hnode] at hget
      cases hget
      obtain ⟨n, hval, -⟩ := returns_bind.mp hreq
      exact (plistGetUintVal_ok (hreadPort _ hnode) 0).mp ⟨n, hval⟩
    · rintro ⟨hdevType, hportType⟩
      obtain ⟨id, hval⟩ := hdev.mpr (hdevType _ rfl)
      refine ⟨_, rfl, returns_bind.mpr ⟨id, hval, returns_bind.mpr ⟨_, hport, ?_⟩⟩⟩
      cases hnode : item dict (lit "PortNumber") with
      | none => exact ⟨_, rfl⟩
      | some node =>
        obtain ⟨n, hval⟩ :=
          (plistGetUintVal_ok (hreadPort _ hnode) 0).mpr (hportType rfl _ hnode)
        exact returns_bind.mpr ⟨n, hval, _, rfl⟩

theorem saveRequest_ok (h : FromXml dict) : (∃ req, saveRequest dict = .ok req) ↔
    ∀ s length, item dict (lit "PairRecordID") = some (.scalar (.string s) length) →
      NulFree s := by
  rw [← plistDictGetStringVal_ok h, saveRequest, returns_bind]
  constructor
  · rintro ⟨str, hstr, -⟩
    exact ⟨str, hstr⟩
  · rintro ⟨str, hstr⟩
    refine ⟨str, hstr, returns_bind.mpr ⟨_, (plistDictGetItem_read h _).1, ?_⟩⟩
    cases item dict (lit "PairRecordData") with
    | none => exact ⟨_, rfl⟩
    | some rdata =>
      dsimp only
      split
      · exact ⟨_, rfl⟩
      · exact ⟨_, rfl⟩

theorem recordRequest_ok (h : FromXml dict) (f : Option (List UInt8) → PlistRequest) :
    (∃ req, (do
      let recordId ← plistDictGetStringVal dict (lit "PairRecordID")
      .ok (f recordId)) = .ok req) ↔
    ∀ s length, item dict (lit "PairRecordID") = some (.scalar (.string s) length) →
      NulFree s := by
  rw [← plistDictGetStringVal_ok h, returns_bind]
  exact ⟨fun ⟨str, hstr, _⟩ => ⟨str, hstr⟩, fun ⟨str, hstr⟩ => ⟨str, hstr, _, rfl⟩⟩

theorem messageRequest_ok (h : FromXml dict) (message : List UInt8) :
    (∃ req, messageRequest dict message = .ok req) ↔
      (message = lit "Connect" →
        (∀ node, item dict (lit "DeviceID") = some node → node.nodeType = .uint) ∧
        ((item dict (lit "DeviceID")).isSome →
          ∀ node, item dict (lit "PortNumber") = some node → node.nodeType = .uint)) ∧
      (message = lit "ReadPairRecord" ∨ message = lit "SavePairRecord" ∨
        message = lit "DeletePairRecord" →
          ∀ s length, item dict (lit "PairRecordID") = some (.scalar (.string s) length) →
            NulFree s) := by
  rw [messageRequest]
  split
  next heq =>
    subst heq
    exact iff_of_true ⟨_, rfl⟩ ⟨fun h => absurd h (by decide), fun h => absurd h (by decide)⟩
  split
  next heq =>
    subst heq
    rw [connectRequest_ok h]
    exact ⟨fun hc => ⟨fun _ => hc, fun h => absurd h (by decide)⟩, fun hc => hc.1 rfl⟩
  split
  next heq =>
    subst heq
    exact iff_of_true ⟨_, rfl⟩ ⟨fun h => absurd h (by decide), fun h => absurd h (by decide)⟩
  split
  next heq =>
    subst heq
    exact iff_of_true ⟨_, rfl⟩ ⟨fun h => absurd h (by decide), fun h => absurd h (by decide)⟩
  split
  next heq =>
    subst heq
    rw [recordRequest_ok h]
    exact ⟨fun hc => ⟨fun h => absurd h (by decide), fun _ => hc⟩, fun hc => hc.2 (.inl rfl)⟩
  split
  next heq =>
    subst heq
    rw [saveRequest_ok h]
    exact ⟨fun hc => ⟨fun h => absurd h (by decide), fun _ => hc⟩,
      fun hc => hc.2 (.inr (.inl rfl))⟩
  split
  next heq =>
    subst heq
    rw [recordRequest_ok h]
    exact ⟨fun hc => ⟨fun h => absurd h (by decide), fun _ => hc⟩,
      fun hc => hc.2 (.inr (.inr rfl))⟩
  next _ hconnect _ _ hread hsave hdelete =>
    refine ⟨fun _ => ⟨fun h => absurd h hconnect, fun h => ?_⟩, fun _ => ⟨_, rfl⟩⟩
    rcases h with h | h | h
    · exact absurd h hread
    · exact absurd h hsave
    · exact absurd h hdelete

theorem requestOf_iff (h : FromXml dict) : (∃ req, requestOf dict = .ok req) ↔ Harmless dict := by
  obtain ⟨hget, hread⟩ := plistDictGetItem_read h (lit "MessageType")
  have hnone (hno : ∀ s, ¬ Says dict s) : Harmless dict :=
    ⟨fun s hs => (hno s hs).elim, fun hs => (hno _ hs).elim, fun hs => (hno _ hs).elim,
      fun hs => by rcases hs with hs | hs | hs <;> exact (hno _ hs).elim⟩
  rw [requestOf, returns_bind, hget]
  cases hitem : item dict (lit "MessageType") with
  | none =>
    refine ⟨fun _ => hnone ?_, fun _ => ⟨_, rfl, _, rfl⟩⟩
    rintro s ⟨length, hs⟩
    rw [hitem] at hs
    cases hs
  | some node =>
    by_cases hnode : node.nodeType = .string
    · obtain ⟨s, length, rfl⟩ := nodeType_string.mp hnode
      have hspoken (m : List UInt8) : Says dict m ↔ s = m := by
        refine ⟨fun ⟨l, hm⟩ => ?_, fun hm => ⟨length, hm ▸ hitem⟩⟩
        rw [hitem] at hm
        cases hm
        rfl
      have hval := plistGetStringVal_read (hread _ hitem)
      constructor
      · rintro ⟨_, ⟨⟩, hreq⟩
        dsimp only at hreq
        rw [if_neg (not_not.mpr hnode), returns_bind, hval] at hreq
        obtain ⟨message, hmessage, hreq⟩ := hreq
        by_cases hs : NulFree s
        · rw [if_pos hs] at hmessage
          cases hmessage
          obtain ⟨hconnect, hrecord⟩ := (messageRequest_ok h s).mp hreq
          refine ⟨fun m hm => (hspoken m).mp hm ▸ hs, fun hc => (hconnect ((hspoken _).mp hc)).1,
            fun hc => (hconnect ((hspoken _).mp hc)).2, fun hr => hrecord ?_⟩
          simpa only [hspoken] using hr
        · rw [if_neg hs] at hmessage
          cases hmessage
      · intro hharm
        refine ⟨_, rfl, ?_⟩
        dsimp only
        rw [if_neg (not_not.mpr hnode), returns_bind, hval]
        refine ⟨s, if_pos (hharm.message s ((hspoken s).mpr rfl)), ?_⟩
        refine (messageRequest_ok h s).mpr ⟨fun hc => ?_, fun hr => hharm.record ?_⟩
        · exact ⟨hharm.device ((hspoken _).mpr hc), hharm.port ((hspoken _).mpr hc)⟩
        · simpa only [hspoken] using hr
    · refine ⟨fun _ => hnone ?_, fun _ => ⟨_, rfl, _, if_pos hnode⟩⟩
      rintro s ⟨length, hs⟩
      rw [hitem] at hs
      cases hs
      exact hnode rfl

end Requests

/-! ## Payloads -/

theorem readPayload_fromXml (conv : Conv) (payload : List UInt8) (hlen : payload.length < 2 ^ 31) :
    ∃ r, readPayload conv payload = .ok r ∧ ∀ dict, r = some dict → FromXml dict := by
  have hall : payload.take payload.length = payload := List.take_length
  have hrobust := nodeFromXml_robust conv _ (MeasuredRun.of_length conv hlen)
  obtain ⟨⟨nodes, plist⟩, hrun⟩ := (hall.symm ▸ hrobust).returns
  have hread := hrun (payload.length + 1) (Nat.lt_succ_self _)
  rw [readPayload, hread]
  cases plist with
  | none => exact ⟨none, rfl, fun _ h => nomatch h⟩
  | some root =>
    obtain ⟨hwell, hroot⟩ := plistFromXml_wellformed hread
    obtain ⟨t, ht, hxml⟩ := hwell.treeAt hroot (Nat.sub_le _ _)
    exact ⟨some t, congrArg Except.ok ht, fun dict h => Option.some.inj h ▸ hxml⟩

/-- **When a plist is survived.**  A payload that fits in the buffer of a client gets to its request
exactly if the dictionary in it, if there is one, is harmless. -/
theorem plistMessage_iff (conv : Conv) (payload : List UInt8)
    (hlen : sizeofUsbmuxdHeader + payload.length ≤ cmdBufSize) :
    (∃ req, plistMessage conv payload = .ok req) ↔
      ∀ dict, readPayload conv payload = .ok (some dict) → Harmless dict := by
  have hsize : cmdBufSize = 65536 := rfl
  obtain ⟨r, hr, hxml⟩ := readPayload_fromXml conv payload (by omega)
  rw [plistMessage, hr]
  cases r with
  | none => exact ⟨fun _ _ h => (nomatch h), fun _ => ⟨_, rfl⟩⟩
  | some dict =>
    dsimp only
    have hiff := requestOf_iff (hxml dict rfl)
    constructor
    · rintro ⟨req, hreq⟩ dict' hdict
      cases hdict
      refine hiff.mp ?_
      cases hrun : requestOf dict with
      | error a => rw [hrun] at hreq; cases hreq
      | ok req => exact ⟨req, rfl⟩
    · intro hharm
      obtain ⟨req, hreq⟩ := hiff.mpr (hharm dict rfl)
      exact ⟨req, by rw [hreq]; rfl⟩

/-- A `Listen` is survived. -/
theorem plistMessage_listen : (∃ req, plistMessage ⟨fun _ => 0, fun _ => 0, fun _ => 0⟩ (lit
    "<plist><dict><key>MessageType</key><string>Listen</string></dict></plist>") = .ok req) ∧
    ∀ dict, readPayload ⟨fun _ => 0, fun _ => 0, fun _ => 0⟩ (lit
      "<plist><dict><key>MessageType</key><string>Listen</string></dict></plist>") =
        .ok (some dict) → Harmless dict := by
  refine (and_iff_left_of_imp fun h => ?_).mpr ⟨.listen, by decide +kernel⟩
  exact (plistMessage_iff _ _ (by decide +kernel)).mp h

/-- **A string as the `DeviceID` aborts the daemon**, and so does a `NUL` in the `MessageType`. -/
theorem plistMessage_aborts :
    plistMessage ⟨fun _ => 0, fun _ => 0, fun _ => 0⟩ (lit
      "<plist><dict><key>MessageType</key><string>Connect</string>" ++ lit
      "<key>DeviceID</key><string>1</string></dict></plist>") = .error (.abort .assertion) ∧
    plistMessage ⟨fun _ => 0, fun _ => 0, fun _ => 0⟩ (lit
      "<plist><dict><key>MessageType</key><string>Listen" ++ [0] ++
        lit "</string></dict></plist>") = .error (.abort .assertion) := by
  constructor <;> decide +kernel

end IDeviceStack.Usbmuxd.Daemon
