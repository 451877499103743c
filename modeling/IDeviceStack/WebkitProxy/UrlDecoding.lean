/-
# `WebkitProxy.UrlDecoding` — the resource of a device request

`Utility::decode` of `Utility.cpp`, and the two requests of `iwdp_on_http_request` that use it for a
local array of 1025 bytes.

* A pointer into the resource is what stands from there on, the `NUL` included; a read behind that,
  and a write behind the array, are faults.
* The array is filled from its beginning; behind what was written it is as it was, and that is 0.
* What `sscanf` makes of two hexadecimal digits is their value.

**Proved here.**  `requestRight_iff`, and that the browser's model counts the bytes of this decoder
(`browser_decode`).
-/
import IDeviceStack.Libplist.Dict
import IDeviceStack.WebkitProxy.Browser

namespace IDeviceStack.WebkitProxy.UrlDecoding

open Libplist Libplist.Xplist
open WebkitProxy.Iwdp (Str isHex startsWith requestIsDeviceBusy requestCleanupDevice)

/-! ## The decoder -/

inductive MemoryFault where
  /-- A read that is not in the resource. -/
  | read
  /-- A write that is not in the array. -/
  | write
  deriving DecidableEq, Repr

/-- An array: what was written into it, and how many bytes are left. -/
structure Output where
  written : List UInt8
  room : Nat
  deriving DecidableEq, Repr

/-- `*o++ = c`. -/
def Output.put (dec : Output) (c : UInt8) : Except MemoryFault Output :=
  match dec.room with
  | 0 => .error .write
  | room + 1 => .ok ⟨dec.written ++ [c], room⟩

/-- The string in the array; behind what was written it holds 0. -/
def Output.string (dec : Output) : Str := cstr (dec.written ++ List.replicate dec.room 0)

def percent : UInt8 := 37
def plus : UInt8 := 43

/-- What `sscanf` with `"%2x"` gives for two digits. -/
def hexByte (a b : UInt8) : UInt8 := UInt8.ofNat (16 * digitValue a + digitValue b)

/-- `Utility::decode`: `none` is -1, and otherwise the number of bytes that were written. -/
def decode : List UInt8 → Output → Except MemoryFault (Option Nat × Output)
  | [], dec => .ok (some dec.written.length, dec)
  | c :: s, dec =>
    if c = plus then (dec.put space).bind (decode s)
    else if c = percent then
      match s with
      | [] => .error .read
      | a :: s =>
        if ¬ isHex a then .ok (none, dec)
        else
          match s with
          | [] => .error .read
          | b :: s =>
            if ¬ isHex b then .ok (none, dec)
            else (dec.put (hexByte a b)).bind (decode s)
    else (dec.put c).bind (decode s)

/-- `decodedResource`. -/
def nMaxLength : Nat := 1025

/-- The resource as a C string in memory. -/
def asMemory (resource : Str) : List UInt8 := resource ++ [0]

/-! ## The two requests -/

/-- What a request does with the device manager. -/
inductive DeviceCall where
  | isDeviceBusy (resource : Str)
  | cleanUp (resource : Str)
  deriving DecidableEq, Repr

/-- The first two branches of `iwdp_on_http_request`; `none` is any other request. -/
def deviceCall (resource : Str) : Except MemoryFault (Option DeviceCall) :=
  if startsWith resource requestIsDeviceBusy then
    (decode (asMemory resource) ⟨[], nMaxLength⟩).map fun r => some (.isDeviceBusy r.2.string)
  else if startsWith resource requestCleanupDevice then
    (decode (asMemory resource) ⟨[], nMaxLength⟩).map fun r => some (.cleanUp r.2.string)
  else .ok none

/-- The resource of a request to the device manager. -/
structure DeviceResource where
  resource : Str
  nulFree : NulFree resource
  isDevice : startsWith resource requestIsDeviceBusy = true ∨
    startsWith resource requestCleanupDevice = true

/-! ## What a resource means -/

/-- Percent-decoding, with `+` for a blank; `none` if an escape is not valid. -/
def percentDecoded : Str → Option Str
  | [] => some []
  | c :: s =>
    if c = percent then
      match s with
      | a :: b :: s => if isHex a && isHex b then (percentDecoded s).map (hexByte a b :: ·) else none
      | _ => none
    else (percentDecoded s).map ((if c = plus then space else c) :: ·)

/-- The call that a request asks for. -/
def askedCall (resource text : Str) : DeviceCall :=
  if startsWith resource requestIsDeviceBusy then .isDeviceBusy text else .cleanUp text

/-- The memory is not left, the handler is run on the decoded string, and on nothing if there is
none. -/
def RequestRight (r : DeviceResource) : Prop :=
  deviceCall r.resource ≠ .error .read ∧ deviceCall r.resource ≠ .error .write ∧
    ∀ call, deviceCall r.resource = .ok call →
      call = (percentDecoded r.resource).map (askedCall r.resource)

/-- The decoded string is there, is a string, and fits. -/
def Decodable (r : DeviceResource) : Prop :=
  ∃ text, percentDecoded r.resource = some text ∧ NulFree text ∧ text.length < nMaxLength

/-! ## Proofs -/

@[simp]
theorem put_zero (written : List UInt8) (c : UInt8) :
    Output.put ⟨written, 0⟩ c = .error .write := rfl

@[simp]
theorem put_succ (written : List UInt8) (room : Nat) (c : UInt8) :
    Output.put ⟨written, room + 1⟩ c = .ok ⟨written ++ [c], room⟩ := rfl

theorem percentDecoded_induct {motive : Str → Prop} (nil : motive [])
    (plain : ∀ c s, c ≠ percent → motive s → motive (c :: s))
    (escape : ∀ a b s, isHex a = true → isHex b = true → motive s → motive (percent :: a :: b :: s))
    (invalid : ∀ s, (∀ a b u, s = a :: b :: u → (isHex a && isHex b) = false) →
      motive (percent :: s)) (s : Str) : motive s := by
  induction hlen : s.length using Nat.strong_induction_on generalizing s with
  | _ n ih =>
    subst hlen
    cases s with
    | nil => exact nil
    | cons c s =>
      by_cases hc : c = percent
      · subst hc
        by_cases hvalid : ∃ a b u, s = a :: b :: u ∧ (isHex a && isHex b) = true
        · obtain ⟨a, b, u, rfl, hhex⟩ := hvalid
          rw [Bool.and_eq_true] at hhex
          refine escape a b u hhex.1 hhex.2 (ih u.length ?_ u rfl)
          simp only [List.length_cons]
          omega
        · refine invalid s fun a b u hs => ?_
          exact Bool.eq_false_iff.2 fun hhex => hvalid ⟨a, b, u, hs, hhex⟩
      · exact plain c s hc (ih s.length (by simp) s rfl)

theorem percentDecoded_plain {c : UInt8} (hc : c ≠ percent) (s : Str) :
    percentDecoded (c :: s) = (percentDecoded s).map ((if c = plus then space else c) :: ·) := by
  rw [percentDecoded.eq_def]
  simp only [if_neg hc]

theorem percentDecoded_escape {a b : UInt8} (ha : isHex a = true) (hb : isHex b = true) (s : Str) :
    percentDecoded (percent :: a :: b :: s) = (percentDecoded s).map (hexByte a b :: ·) := by
  rw [percentDecoded.eq_def]
  simp [ha, hb]

theorem percentDecoded_invalid {s : Str}
    (hs : ∀ a b u, s = a :: b :: u → (isHex a && isHex b) = false) :
    percentDecoded (percent :: s) = none := by
  rw [percentDecoded.eq_def]
  simp only [if_true]
  split
  · next a b u => rw [hs a b u rfl, if_neg Bool.false_ne_true]
  · rfl

theorem decode_plain {c : UInt8} (hc : c ≠ percent) (s : List UInt8) (dec : Output) :
    decode (c :: s) dec = (dec.put (if c = plus then space else c)).bind (decode s) := by
  rw [decode.eq_def]
  by_cases hplus : c = plus
  · simp only [if_pos hplus]
  · simp only [if_neg hplus, if_neg hc]

theorem decode_escape {a b : UInt8} (ha : isHex a = true) (hb : isHex b = true) (s : List UInt8)
    (dec : Output) :
    decode (percent :: a :: b :: s) dec = (dec.put (hexByte a b)).bind (decode s) := by
  rw [decode.eq_def]
  simp [ha, hb, show percent ≠ plus by decide]

/-- A string is in the array, with its `NUL`, or does not fit. -/
def filled (text : Str) (dec : Output) : Except MemoryFault (Option Nat × Output) :=
  if text.length < dec.room then
    .ok (some (dec.written.length + text.length + 1),
      ⟨dec.written ++ text ++ [0], dec.room - (text.length + 1)⟩)
  else .error .write

theorem filled_cons {text : Str} {f : Output → Except MemoryFault (Option Nat × Output)}
    (hf : ∀ dec, f dec = filled text dec) (c : UInt8) (dec : Output) :
    (dec.put c).bind f = filled (c :: text) dec := by
  obtain ⟨written, room⟩ := dec
  cases room with
  | zero => rfl
  | succ room =>
    show f ⟨written ++ [c], room⟩ = _
    rw [hf, filled, filled]
    have hcons : (c :: text).length < (⟨written, room + 1⟩ : Output).room ↔ text.length < room :=
      Nat.succ_lt_succ_iff
    by_cases hroom : text.length < room
    · rw [if_pos hroom, if_pos (hcons.2 hroom)]
      simp only [List.length_append, List.length_cons, List.length_nil, List.append_assoc,
        List.cons_append, List.nil_append, Except.ok.injEq, Prod.mk.injEq, Option.some.injEq,
        Output.mk.injEq, true_and]
      omega
    · rw [if_neg hroom, if_neg fun h => hroom (hcons.1 h)]

theorem decode_some (s : Str) {text : Str} (h : percentDecoded s = some text) (dec : Output) :
    decode (asMemory s) dec = filled text dec := by
  induction s using percentDecoded_induct generalizing text dec with
  | nil =>
    cases h
    rw [asMemory, List.nil_append, decode_plain (by decide), if_neg (by decide)]
    obtain ⟨written, room⟩ := dec
    cases room with
    | zero => rfl
    | succ room => simp [Except.bind, decode, filled]
  | plain c s hc ih =>
    rw [percentDecoded_plain hc, Option.map_eq_some_iff] at h
    obtain ⟨text, htext, rfl⟩ := h
    rw [asMemory, List.cons_append, decode_plain hc]
    exact filled_cons (fun dec => ih htext dec) _ dec
  | escape a b s ha hb ih =>
    rw [percentDecoded_escape ha hb, Option.map_eq_some_iff] at h
    obtain ⟨text, htext, rfl⟩ := h
    rw [asMemory, List.cons_append, List.cons_append, List.cons_append, decode_escape ha hb]
    exact filled_cons (fun dec => ih htext dec) _ dec
  | invalid s hs =>
    rw [percentDecoded_invalid hs] at h
    cases h

/-! ## The decoder of the browser's model -/

theorem put_bind_write_iff {f : Output → Except MemoryFault (Option Nat × Output)} {n : Nat}
    (hf : ∀ dec, f dec = .error .write ↔ dec.room < n) (c : UInt8) (dec : Output) :
    (dec.put c).bind f = .error .write ↔ dec.room < n + 1 := by
  obtain ⟨written, room⟩ := dec
  cases room with
  | zero => exact iff_of_true rfl (Nat.succ_pos n)
  | succ room => exact (hf _).trans Nat.succ_lt_succ_iff.symm

theorem decode_write_iff (s : Str) (dec : Output) :
    decode (asMemory s) dec = .error .write ↔ dec.room < Iwdp.decodeLength s := by
  induction s using percentDecoded_induct generalizing dec with
  | nil =>
    rw [asMemory, List.nil_append, decode_plain (by decide)]
    have hend dec : decode [] dec = .error .write ↔ dec.room < 0 :=
      iff_of_false (fun h => by cases h) (Nat.not_lt_zero _)
    exact put_bind_write_iff hend _ dec
  | plain c s hc ih =>
    have hlen : Iwdp.decodeLength (c :: s) = Iwdp.decodeLength s + 1 := by
      rw [Iwdp.decodeLength.eq_def]
      exact if_neg hc
    rw [hlen, asMemory, List.cons_append, decode_plain hc]
    exact put_bind_write_iff ih _ dec
  | escape a b s ha hb ih =>
    have hlen : Iwdp.decodeLength (percent :: a :: b :: s) = Iwdp.decodeLength s + 1 := by
      simp [Iwdp.decodeLength, percent, ha, hb]
    rw [hlen, asMemory, List.cons_append, List.cons_append, List.cons_append, decode_escape ha hb]
    exact put_bind_write_iff ih _ dec
  | invalid s hs =>
    have hlen : Iwdp.decodeLength (percent :: s) = 0 := by
      rw [Iwdp.decodeLength.eq_def]
      grind [percent]
    rw [hlen, asMemory, List.cons_append, decode.eq_def]
    refine iff_of_false ?_ (Nat.not_lt_zero _)
    have hnul : isHex 0 = false := rfl
    rcases s with _ | ⟨a, _ | ⟨b, s⟩⟩ <;> grind [percent, plus]

/-- The browser's model stops where this decoder leaves the array. -/
theorem browser_decode (resource : Str) :
    (decode (asMemory resource) ⟨[], nMaxLength⟩ = .error .write →
      Iwdp.decode resource = throw .overrun) ∧
    (decode (asMemory resource) ⟨[], nMaxLength⟩ ≠ .error .write →
      Iwdp.decode resource = pure ()) := by
  rw [Ne, decode_write_iff]
  exact ⟨fun h => if_pos h, fun h => if_neg h⟩

/-! ## The requests -/

theorem deviceCall_eq (r : DeviceResource) : deviceCall r.resource =
    (decode (asMemory r.resource) ⟨[], nMaxLength⟩).map fun result =>
      some (askedCall r.resource result.2.string) := by
  rw [deviceCall, funext fun result : Option Nat × Output =>
    congrArg some (askedCall.eq_1 r.resource result.2.string)]
  by_cases hbusy : startsWith r.resource requestIsDeviceBusy = true
  · simp only [if_pos hbusy]
  · simp only [if_neg hbusy, if_pos (r.isDevice.resolve_left hbusy)]

theorem askedCall_inj {resource text text' : Str} :
    askedCall resource text = askedCall resource text' ↔ text = text' := by
  rw [askedCall, askedCall]
  split
  · exact DeviceCall.isDeviceBusy.injEq .. ▸ Iff.rfl
  · exact DeviceCall.cleanUp.injEq .. ▸ Iff.rfl

theorem string_filled (text : Str) (room : Nat) :
    Output.string ⟨text ++ [0], room⟩ = cstr text := by
  rw [Output.string, List.append_assoc, cstr, cstr, List.takeWhile_append]
  split
  · next hall =>
    rw [List.singleton_append, List.takeWhile_cons_of_neg (by simp), List.append_nil]
    exact ((List.takeWhile_prefix _).eq_of_length hall).symm
  · rfl

theorem cstr_eq_self_iff {text : Str} : cstr text = text ↔ NulFree text :=
  ⟨fun h => h ▸ nulFree_cstr text, cstr_of_nulFree⟩

/-- **Device requests.**  The handler is run on exactly the decoded string if and only if there is
one that fits. -/
theorem requestRight_iff (r : DeviceResource) : RequestRight r ↔ Decodable r := by
  rw [RequestRight, deviceCall_eq]
  cases htext : percentDecoded r.resource with
  | none =>
    refine iff_of_false ?_ fun ⟨text, h, _⟩ => by rw [htext] at h; cases h
    rintro ⟨hread, hwrite, hcall⟩
    cases hrun : decode (asMemory r.resource) ⟨[], nMaxLength⟩ with
    | error e =>
      rw [hrun] at hread hwrite
      cases e with
      | read => exact hread rfl
      | write => exact hwrite rfl
    | ok result =>
      rw [hrun] at hcall
      exact absurd (hcall _ rfl) nofun
  | some text =>
    rw [decode_some _ htext, filled]
    by_cases hroom : text.length < nMaxLength
    · rw [if_pos hroom]
      have hstring := string_filled text (nMaxLength - (text.length + 1))
      constructor
      · rintro ⟨-, -, hcall⟩
        have hasked := Option.some.inj (hcall _ rfl)
        rw [askedCall_inj] at hasked
        exact ⟨text, htext, cstr_eq_self_iff.1 (hstring.symm.trans hasked), hroom⟩
      · rintro ⟨text', htext', hnul, -⟩
        rw [htext] at htext'
        cases htext'
        refine ⟨nofun, nofun, ?_⟩
        rintro _ ⟨⟩
        exact congrArg some (askedCall_inj.2 (hstring.trans (cstr_of_nulFree hnul)))
    · rw [if_neg hroom]
      refine iff_of_false (fun h => h.2.1 rfl) ?_
      rintro ⟨text', htext', -, hfits⟩
      rw [htext] at htext'
      cases htext'
      exact hroom hfits

theorem percentDecoded_same {s : Str} (hs : ∀ c ∈ s, c ≠ percent ∧ c ≠ plus) :
    percentDecoded s = some s := by
  induction s with
  | nil => rfl
  | cons c s ih =>
    obtain ⟨hc, hplus⟩ := hs c List.mem_cons_self
    rw [percentDecoded_plain hc, if_neg hplus, ih fun x hx => hs x (List.mem_cons_of_mem c hx)]
    rfl

/-- `/isDeviceBusy/`, and 1024 letters. -/
def longResource : DeviceResource where
  resource := ascii "/isDeviceBusy/" ++ List.replicate 1024 97
  nulFree c hc := by
    rcases List.mem_append.1 hc with hc | hc
    · revert c
      decide +kernel
    · rw [List.eq_of_mem_replicate hc]
      decide
  isDevice := .inl rfl

/-- `/cleanupdevicedata/a%zz`, which is no valid string. -/
def brokenResource : DeviceResource where
  resource := ascii "/cleanupdevicedata/a%zz"
  nulFree := by decide +kernel
  isDevice := .inr (by decide +kernel)

/-- A long resource runs over the end of the array, and of one that is not valid the beginning is
acted on. -/
theorem requestRight_refuted :
    deviceCall longResource.resource = .error .write ∧ ¬ RequestRight longResource ∧
      deviceCall brokenResource.resource = .ok (some (.cleanUp (ascii "/cleanupdevicedata/a"))) ∧
      ¬ RequestRight brokenResource := by
  have hsame : percentDecoded longResource.resource = some longResource.resource := by
    refine percentDecoded_same fun c hc => ?_
    rcases List.mem_append.1 hc with hc | hc
    · revert c
      decide +kernel
    · rw [List.eq_of_mem_replicate hc]
      decide
  have hlong : deviceCall longResource.resource = .error .write := by
    rw [deviceCall_eq, decode_some _ hsame, filled, if_neg]
    · rfl
    · decide +kernel
  have hbroken : deviceCall brokenResource.resource =
      .ok (some (.cleanUp (ascii "/cleanupdevicedata/a"))) := by decide +kernel
  have hnone : percentDecoded brokenResource.resource = none := by decide +kernel
  refine ⟨hlong, fun h => h.2.1 hlong, hbroken, fun h => ?_⟩
  have hcall := h.2.2 _ hbroken
  rw [hnone] at hcall
  cases hcall

end IDeviceStack.WebkitProxy.UrlDecoding
