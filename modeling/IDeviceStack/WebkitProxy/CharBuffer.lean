/-
# `WebkitProxy.CharBuffer` — the input and output buffers

`char_buffer.c` of the proxy.  A `cb_t` owns a block of memory and uses the part
between `head` and `tail`.  For input it borrows: while nothing is left over from
before, the bytes are read where the caller has them, and only what the reader
did not use is copied into the block.

* `size_t` is `Nat`; the one sum that can come out of its range is reduced.
* `1.5 * length` is the whole part of it; a `double` says the same below 2⁵³.
* `malloc` and `realloc` grant a request or not, depending on its size.  What
  they leave in the new part of a block is never read; it is zero here.
* `in_head` and `in_tail` are the bytes between them, with a flag whether they
  are borrowed; that the comparison of addresses says the same is proved last.
-/
import IDeviceStack.Lib.Buffer
import IDeviceStack.Lib.Receive
import Mathlib.Algebra.Order.Ring.Nat

namespace IDeviceStack.WebkitProxy

open Lib List Option

def minLength : Nat := 1024

/-- The machine: the bits of `size_t`, and the requests for memory it grants. -/
structure Machine where
  bits : Nat
  bits_eq : bits = 32 ∨ bits = 64
  grants : Nat → Bool

/-- A machine of 64 bits that grants every request. -/
def Machine.generous : Machine := ⟨64, .inr rfl, fun _ => true⟩

/-- `struct cb_struct`.  Positions are relative to `begin`. -/
structure Cb where
  mem : Option (List UInt8)
  head : Nat
  tail : Nat
  /-- The bytes from `in_head` to `in_tail`. -/
  input : List UInt8
  /-- They stand in the caller's buffer. -/
  shared : Bool

def cbNew : Cb := ⟨none, 0, 0, [], false⟩

namespace Cb

/-- The block; its length is `end - begin`. -/
def block (cb : Cb) : List UInt8 := cb.mem.getD []

/-- What the buffer holds. -/
def content (cb : Cb) : List UInt8 := (cb.block.drop cb.head).take (cb.tail - cb.head)

/-- The positions are in order, and in the block. -/
structure Wf (cb : Cb) : Prop where
  head_le : cb.head ≤ cb.tail
  tail_le : cb.tail ≤ cb.block.length

/-- `memcpy(self->tail, src, …)`. -/
def write (cb : Cb) (src : List UInt8) : Cb :=
  { cb with mem := cb.mem.map fun mem => memcpy mem cb.tail src }

/-- `memcpy(self->tail, src, …); self->tail += …`. -/
def put (cb : Cb) (src : List UInt8) : Cb :=
  { cb.write src with tail := cb.tail + src.length }

end Cb

def cbClear (cb : Cb) : Cb := { cb with head := 0, tail := 0 }

/-- The block after `realloc`. -/
def resized (mem : List UInt8) (length : Nat) : List UInt8 :=
  mem.take length ++ List.replicate (length - mem.length) 0

/-- `cb_ensure_capacity`, with the buffer and whether it returns 0. -/
def cbEnsureCapacity (m : Machine) (cb : Cb) (needed : Nat) : Cb × Bool :=
  match cb.mem with
  | none =>
    let length := if needed > minLength then needed else minLength
    if m.grants length then
      ({ cb with mem := some (List.replicate length 0), head := 0, tail := 0 }, true)
    else (cb, false)
  | some mem =>
    let used := cb.tail - cb.head
    let offset := if used = 0 then 0 else cb.head
    let tail := if used = 0 then 0 else cb.tail
    let avail := mem.length - tail
    if needed ≤ avail then ({ cb with head := offset, tail := tail }, true)
    else
      let moved := if offset = 0 then mem else memmove mem 0 offset used
      if needed ≤ avail + offset then
        ({ cb with mem := some moved, head := 0, tail := used }, true)
      else
        let sum := (used + needed) % 2 ^ m.bits
        let newLength := if 2 * sum < 3 * mem.length then 3 * mem.length / 2 else sum
        if m.grants newLength then
          ({ cb with mem := some (resized moved newLength), head := 0, tail := used }, true)
        else ({ cb with mem := some moved, head := 0, tail := used }, false)

def cbBeginInput (m : Machine) (cb : Cb) (buf : List UInt8) : Cb × Bool :=
  let canShare := cb.mem.isNone || cb.tail == cb.head
  if canShare then ({ cb with input := buf, shared := true }, true)
  else
    match cbEnsureCapacity m cb buf.length with
    | (cb, false) => (cb, false)
    | (cb, true) => ({ cb.put buf with input := (cb.put buf).content, shared := false }, true)

def cbEndInput (m : Machine) (cb : Cb) : Cb × Bool :=
  let didShare := cb.mem.isNone || cb.shared
  if didShare then
    if cb.input.isEmpty then ({ cb with input := [] }, true)
    else
      match cbEnsureCapacity m cb cb.input.length with
      | (cb', false) => (cb', false)
      | (cb', true) => ({ cb'.put cb.input with input := [] }, true)
  else ({ cb with head := cb.tail - cb.input.length, input := [] }, true)

/-! ## Room -/

theorem cbNew_wf : cbNew.Wf := ⟨Nat.le_refl _, Nat.le_refl _⟩

@[simp] theorem cbNew_content : cbNew.content = [] := rfl

variable {cb : Cb}

theorem Cb.content_of_none (h : cb.mem = none) : cb.content = [] := by
  rw [content, block, h, getD_none, drop_nil, take_nil]

theorem Cb.content_of_head_eq_tail (h : cb.tail = cb.head) : cb.content = [] := by
  rw [content, h, Nat.sub_self, take_zero]

theorem Cb.length_content (h : cb.Wf) : cb.content.length = cb.tail - cb.head := by
  have h1 := h.head_le
  have h2 := h.tail_le
  rw [content, length_take, length_drop]
  omega

theorem length_resized (mem : List UInt8) (length : Nat) : (resized mem length).length = length := by
  rw [resized, length_append, length_take, length_replicate]
  omega

variable {mem : List UInt8}

theorem take_resized {length n : Nat} (h : n ≤ length) (h' : n ≤ mem.length) :
    (resized mem length).take n = mem.take n := by
  rw [resized, take_append_of_le_length (by rw [length_take]; omega), take_take, Nat.min_eq_left h]

/-- What `cb_ensure_capacity` leaves alone, and the room it makes if its sum does not wrap. -/
structure Keeps (m : Machine) (needed : Nat) (cb cb' : Cb) (ok : Bool) : Prop where
  wf : cb'.Wf
  content : cb'.content = cb.content
  room : ok = true → (cb.tail - cb.head) + needed < 2 ^ m.bits →
    cb'.tail + needed ≤ cb'.block.length ∧ cb'.mem ≠ none
  input : cb'.input = cb.input
  shared : cb'.shared = cb.shared

theorem Cb.block_of_some (h : cb.mem = some mem) : cb.block = mem := by
  rw [block, h, getD_some]

theorem take_moved {offset used : Nat} (h : offset + used ≤ mem.length) :
    (if offset = 0 then mem else memmove mem 0 offset used).take used
      = (mem.drop offset).take used := by
  split
  · next h0 => rw [h0, drop_zero]
  · exact take_memmove h

theorem length_moved {offset used : Nat} (h : offset + used ≤ mem.length) :
    (if offset = 0 then mem else memmove mem 0 offset used).length = mem.length := by
  split
  · rfl
  · exact length_memmove h

variable {m : Machine}

theorem Keeps.of_block {needed : Nat} {ok : Bool} {head tail : Nat} (hhead : head ≤ tail)
    (htail : tail ≤ mem.length) (hcontent : (mem.drop head).take (tail - head) = cb.content)
    (hroom : ok = true → (cb.tail - cb.head) + needed < 2 ^ m.bits → tail + needed ≤ mem.length) :
    Keeps m needed cb { cb with mem := some mem, head := head, tail := tail } ok where
  wf := ⟨hhead, htail⟩
  content := hcontent
  room hok hsum := ⟨hroom hok hsum, some_ne_none _⟩
  input := rfl
  shared := rfl

theorem cbEnsureCapacity_keeps (m : Machine) (hwf : cb.Wf) (needed : Nat) :
    Keeps m needed cb (cbEnsureCapacity m cb needed).1 (cbEnsureCapacity m cb needed).2 := by
  have hhead := hwf.head_le
  have htail := hwf.tail_le
  cases hmem : cb.mem with
  | none =>
    simp only [cbEnsureCapacity, hmem]
    generalize hlength : (if needed > minLength then needed else minLength) = length
    have hneeded : needed ≤ length := by
      rw [← hlength]
      split <;> omega
    cases m.grants length with
    | true =>
      refine Keeps.of_block (Nat.le_refl 0) (Nat.zero_le _) ?_ fun _ _ => ?_
      · rw [Cb.content_of_none hmem, Nat.sub_self, take_zero]
      · rw [length_replicate]
        omega
    | false => exact ⟨hwf, rfl, fun h => absurd h Bool.false_ne_true, rfl, rfl⟩
  | some mem =>
    rw [Cb.block_of_some hmem] at htail
    simp only [cbEnsureCapacity, hmem]
    -- where the used part begins, and ends
    generalize hused : cb.tail - cb.head = used
    generalize hoffset : (if used = 0 then 0 else cb.head) = offset
    have hend : (if used = 0 then 0 else cb.tail) = offset + used := by
      rw [← hoffset]
      split <;> omega
    rw [hend]
    have hbound : offset + used ≤ mem.length := by
      rw [← hoffset]
      split <;> omega
    have hcontent : (mem.drop offset).take used = cb.content := by
      rw [Cb.content, Cb.block_of_some hmem, hused, ← hoffset]
      split
      · next h0 => rw [h0, take_zero, take_zero]
      · rfl
    have hmoved := (take_moved hbound).trans hcontent
    have hlength := length_moved hbound
    generalize (if offset = 0 then mem else memmove mem 0 offset used) = moved at *
    by_cases hfits : needed ≤ mem.length - (offset + used)
    · rw [if_pos hfits]
      refine Keeps.of_block (Nat.le_add_right _ _) hbound ?_ fun _ _ => by omega
      rw [Nat.add_sub_cancel_left]
      exact hcontent
    rw [if_neg hfits]
    by_cases hfits' : needed ≤ mem.length - (offset + used) + offset
    · rw [if_pos hfits']
      exact Keeps.of_block (Nat.zero_le _) (by omega) hmoved fun _ _ => by omega
    rw [if_neg hfits']
    generalize hnew : (if 2 * ((used + needed) % 2 ^ m.bits) < 3 * mem.length then
      3 * mem.length / 2 else (used + needed) % 2 ^ m.bits) = newLength
    have hgrows : mem.length ≤ newLength ∧ (used + needed) % 2 ^ m.bits ≤ newLength := by
      rw [← hnew]
      split <;> omega
    cases m.grants newLength with
    | true =>
      refine Keeps.of_block (Nat.zero_le _) ?_ ?_ fun _ hsum => ?_
      · rw [length_resized]
        omega
      · rw [drop_zero, Nat.sub_zero, take_resized (by omega) (by omega)]
        exact hmoved
      · rw [hused] at hsum
        rw [Nat.mod_eq_of_lt hsum] at hgrows
        rw [length_resized]
        omega
    | false =>
      exact Keeps.of_block (Nat.zero_le _) (by omega) hmoved fun h => absurd h Bool.false_ne_true

theorem cbEnsureCapacity_ok (hgrants : ∀ n, m.grants n = true) (cb : Cb) (needed : Nat) :
    (cbEnsureCapacity m cb needed).2 = true := by
  cases hmem : cb.mem with
  | none => simp only [cbEnsureCapacity, hmem, hgrants, if_true]
  | some mem =>
    simp only [cbEnsureCapacity, hmem, hgrants, if_true, apply_ite Prod.snd, ite_self]

/-! ## Input -/

theorem Cb.put_wf (hwf : cb.Wf) {src : List UInt8} (hmem : cb.mem ≠ none)
    (hroom : cb.tail + src.length ≤ cb.block.length) : (cb.put src).Wf := by
  obtain ⟨mem, hsome⟩ := ne_none_iff_exists'.mp hmem
  rw [block_of_some hsome] at hroom
  have hblock : (cb.put src).block = memcpy mem cb.tail src := by
    simp only [put, write, block, hsome, map_some, getD_some]
  constructor
  · exact Nat.le_trans hwf.head_le (Nat.le_add_right _ _)
  · rw [hblock, length_memcpy hroom]
    exact hroom

theorem Cb.put_content (hwf : cb.Wf) {src : List UInt8} (hmem : cb.mem ≠ none)
    (hroom : cb.tail + src.length ≤ cb.block.length) :
    (cb.put src).content = cb.content ++ src := by
  obtain ⟨mem, hsome⟩ := ne_none_iff_exists'.mp hmem
  have hhead := hwf.head_le
  have htail := hwf.tail_le
  rw [block_of_some hsome] at hroom htail
  have hblock : (cb.put src).block = memcpy mem cb.tail src := by
    simp only [put, write, block, hsome, map_some, getD_some]
  have hpositions : (cb.put src).head = cb.head ∧ (cb.put src).tail = cb.tail + src.length :=
    ⟨rfl, rfl⟩
  have hprefix := take_memcpy hroom
  rw [content, hblock, hpositions.1, hpositions.2, content, block_of_some hsome, ← drop_take,
    hprefix, drop_append_of_le_length (by rw [length_take]; omega), drop_take]

/-- Between `cb_begin_input` and `cb_end_input`: the input is borrowed and nothing is held, or it
is what is held. -/
structure Cb.Reading (cb : Cb) : Prop where
  wf : cb.Wf
  borrowed : cb.shared = true → cb.mem = none ∨ cb.tail = cb.head
  own : cb.shared = false → cb.mem ≠ none ∧ cb.content = cb.input

theorem Cb.content_of_empty (h : cb.mem = none ∨ cb.tail = cb.head) : cb.content = [] := by
  rcases h with hnone | heq
  · exact content_of_none hnone
  · exact content_of_head_eq_tail heq

theorem cbBeginInput_ok (hgrants : ∀ n, m.grants n = true) (cb : Cb) (buf : List UInt8) :
    (cbBeginInput m cb buf).2 = true := by
  have hok := cbEnsureCapacity_ok hgrants cb buf.length
  rw [cbBeginInput]
  split
  · rfl
  · generalize cbEnsureCapacity m cb buf.length = res at hok ⊢
    obtain ⟨cb1, ok⟩ := res
    obtain rfl : ok = true := hok
    rfl

/-- Something has been put into the block. -/
def Cb.Advanced (cb : Cb) : Prop := cb.mem ≠ none → 0 < cb.tail

variable {cb' : Cb}

theorem Keeps.tail_pos {needed : Nat} {ok : Bool} (h : Keeps m needed cb cb' ok) (hwf : cb.Wf)
    (hused : cb.mem ≠ none ∧ cb.tail ≠ cb.head) : 0 < cb'.tail := by
  have hle := hwf.head_le
  have hlen := Cb.length_content h.wf
  rw [h.content, Cb.length_content hwf] at hlen
  omega

variable {buf : List UInt8}

/-- **Input.**  What was left over, and then what has come. -/
theorem cbBeginInput_input (hwf : cb.Wf) (hlen : cb.content.length + buf.length < 2 ^ m.bits)
    (hbegin : cbBeginInput m cb buf = (cb', true)) :
    cb'.Reading ∧ cb'.input = cb.content ++ buf ∧ (cb'.shared = true → cb'.input = buf) ∧
      (cb.Advanced → cb'.Advanced) := by
  rw [Cb.length_content hwf] at hlen
  rw [cbBeginInput] at hbegin
  by_cases hshare : (cb.mem.isNone || cb.tail == cb.head) = true
  · rw [if_pos hshare] at hbegin
    have hempty : cb.mem = none ∨ cb.tail = cb.head := by simpa using hshare
    cases hbegin
    refine ⟨⟨⟨hwf.head_le, hwf.tail_le⟩, fun _ => hempty, fun h => ?_⟩, ?_, fun _ => rfl, id⟩
    · exact absurd h.symm Bool.false_ne_true
    · rw [Cb.content_of_empty hempty, nil_append]
  · rw [if_neg hshare] at hbegin
    have hkeeps := cbEnsureCapacity_keeps m hwf buf.length
    generalize cbEnsureCapacity m cb buf.length = res at hbegin hkeeps
    obtain ⟨cb1, ok⟩ := res
    cases ok with
    | false => cases hbegin
    | true =>
      cases hbegin
      obtain ⟨hroom, hmem⟩ := hkeeps.room rfl hlen
      have hput := Cb.put_wf hkeeps.wf hmem hroom
      refine ⟨⟨⟨hput.head_le, hput.tail_le⟩, fun h => ?_, fun _ => ⟨?_, rfl⟩⟩, ?_,
        fun h => ?_, fun _ _ => ?_⟩
      · exact absurd h Bool.false_ne_true
      · simpa [Cb.put, Cb.write] using hmem
      · rw [← hkeeps.content]
        exact Cb.put_content hkeeps.wf hmem hroom
      · exact absurd h Bool.false_ne_true
      · exact Nat.lt_of_lt_of_le (hkeeps.tail_pos hwf (by simpa using hshare))
          (Nat.le_add_right _ _)

theorem cbEndInput_ok {m : Machine} (hgrants : ∀ n, m.grants n = true) (cb : Cb) :
    (cbEndInput m cb).2 = true := by
  have hok := cbEnsureCapacity_ok hgrants cb cb.input.length
  rw [cbEndInput]
  split
  · split
    · rfl
    · generalize cbEnsureCapacity m cb cb.input.length = res at hok ⊢
      obtain ⟨cb1, ok⟩ := res
      obtain rfl : ok = true := hok
      rfl
  · rfl

/-- **The rest of the input.**  What the reader did not use is kept. -/
theorem cbEndInput_content {m : Machine} {cb cb' : Cb} (hread : cb.Reading)
    (hlen : cb.input.length < 2 ^ m.bits) {n : Nat}
    (hend : cbEndInput m { cb with input := cb.input.drop n } = (cb', true)) :
    cb'.Wf ∧ cb'.content = cb.input.drop n := by
  have hhead := hread.wf.head_le
  have htail := hread.wf.tail_le
  have hrest : (cb.input.drop n).length ≤ cb.input.length := by
    rw [length_drop]
    omega
  cases hshared : cb.shared with
  | true =>
    have hnil := Cb.content_of_empty (hread.borrowed hshared)
    have hused : cb.tail - cb.head = 0 := by
      rw [← Cb.length_content hread.wf, hnil, length_nil]
    have hwf : Cb.Wf { cb with input := cb.input.drop n } := ⟨hhead, htail⟩
    simp only [cbEndInput, hshared, Bool.or_true, if_true] at hend
    by_cases hall : (cb.input.drop n).isEmpty = true
    · rw [if_pos hall] at hend
      cases hend
      refine ⟨⟨hhead, htail⟩, ?_⟩
      rw [isEmpty_iff.mp hall]
      exact hnil
    · rw [if_neg hall] at hend
      have hkeeps := cbEnsureCapacity_keeps m hwf (cb.input.drop n).length
      rw [hshared] at hkeeps
      generalize cbEnsureCapacity m { cb with input := cb.input.drop n, shared := true }
        (cb.input.drop n).length = res at hend hkeeps
      obtain ⟨cb1, ok⟩ := res
      cases ok with
      | false => cases hend
      | true =>
        cases hend
        obtain ⟨hroom, hmem⟩ := hkeeps.room rfl (by dsimp only; omega)
        have hput := Cb.put_wf hkeeps.wf hmem hroom
        have hcontent := Cb.put_content hkeeps.wf hmem hroom
        refine ⟨⟨hput.head_le, hput.tail_le⟩, ?_⟩
        rw [hkeeps.content] at hcontent
        refine Eq.trans hcontent ?_
        exact congrArg (· ++ cb.input.drop n) hnil
  | false =>
    obtain ⟨hmem, hview⟩ := hread.own hshared
    have hsize := Cb.length_content hread.wf
    rw [hview] at hsize
    rw [cbEndInput, if_neg (by simp [isNone_iff_eq_none, hmem, hshared])] at hend
    cases hend
    refine ⟨⟨Nat.sub_le _ _, htail⟩, ?_⟩
    change (cb.block.drop (cb.tail - (cb.input.drop n).length)).take
      (cb.tail - (cb.tail - (cb.input.drop n).length)) = cb.input.drop n
    by_cases hn : n ≤ cb.tail - cb.head
    · rw [length_drop, hsize, show cb.tail - (cb.tail - cb.head - n) = cb.head + n by omega,
        show cb.tail - (cb.head + n) = cb.tail - cb.head - n by omega, ← hview, Cb.content,
        drop_take, drop_drop]
    · rw [drop_eq_nil_of_le (by omega), length_nil, Nat.sub_zero, Nat.sub_self, take_zero]

/-- **A chunk.**  Around a receive loop, the buffer hands over what was left and what has come, and
keeps what the loop leaves. -/
theorem cb_receive {σ : Type} (turn : σ → List UInt8 → Turn σ) (rank : σ → List UInt8 → Nat) (s : σ)
    (hgrants : ∀ n, m.grants n = true) (hwf : cb.Wf)
    (hlen : cb.content.length + buf.length < 2 ^ m.bits) :
    ∃ cb1 cb2, cbBeginInput m cb buf = (cb1, true) ∧ cb1.input = cb.content ++ buf ∧
      cbEndInput m { cb1 with input := (drainAll turn rank s cb1.input).2 } = (cb2, true) ∧
      cb2.Wf ∧ cb2.content = (drainAll turn rank s (cb.content ++ buf)).2 := by
  obtain ⟨cb1, hbegin⟩ : ∃ cb1, cbBeginInput m cb buf = (cb1, true) :=
    ⟨_, Prod.ext rfl (cbBeginInput_ok hgrants cb buf)⟩
  obtain ⟨hread, hinput, -⟩ := cbBeginInput_input hwf hlen hbegin
  obtain ⟨n, hrest⟩ := drain_eq_drop turn (rank s cb1.input + 1) s cb1.input
  have hloop : (drainAll turn rank s cb1.input).2 = cb1.input.drop n := hrest
  have hshort : cb1.input.length < 2 ^ m.bits := by
    rw [hinput, length_append]
    exact hlen
  obtain ⟨cb2, hend⟩ : ∃ cb2, cbEndInput m { cb1 with input := cb1.input.drop n } = (cb2, true) :=
    ⟨_, Prod.ext rfl (cbEndInput_ok hgrants _)⟩
  obtain ⟨hwf2, hcontent⟩ := cbEndInput_content hread hshort hend
  rw [← hloop] at hend hcontent
  refine ⟨cb1, cb2, hbegin, hinput, hend, hwf2, ?_⟩
  rw [hcontent, hinput]

/-! ## Runs

`cb_end_input` has no flag: it takes the input for borrowed if there is no block, or if `in_tail`
is not `self->tail`.  The caller's memory may lie right before the block, so that a chunk ends where
the block begins; but when there is a block, something has been put into it, and `tail` is past
its beginning. -/

/-- `cb_end_input`, which compares addresses: the block is at `base`, the input ends at `inTail`. -/
def cbEndInputAt (m : Machine) (base inTail : Nat) (cb : Cb) : Cb × Bool :=
  cbEndInput m { cb with shared := cb.mem.isNone || inTail != base + cb.tail }

/-- A round: a chunk and where the caller has it, where the block is, and by how many bytes the
reader advances `in_head`. -/
structure Round where
  buf : List UInt8
  addr : Nat
  base : Nat
  used : Nat

/-- `in_tail`, as `cb_begin_input` sets it. -/
def Cb.inTail (cb : Cb) (r : Round) : Nat :=
  if cb.shared then r.addr + r.buf.length else r.base + cb.tail

/-- No byte of the caller's chunk is in the block. -/
def Round.Apart (r : Round) (cb : Cb) : Prop :=
  ∀ x, r.addr ≤ x → x < r.addr + r.buf.length → ¬(r.base ≤ x ∧ x < r.base + cb.block.length)

/-- A buffer after some rounds, with all that it has been handed and how much of it was used. -/
inductive InputRun (m : Machine) : List UInt8 → Nat → Cb → Prop
  | start : InputRun m [] 0 cbNew
  /-- There is no memory for a chunk. -/
  | refused {received : List UInt8} {consumed : Nat} {cb cb' : Cb} (buf : List UInt8) :
      InputRun m received consumed cb → cbBeginInput m cb buf = (cb', false) →
      InputRun m received consumed cb'
  | round {received : List UInt8} {consumed : Nat} {cb cb₁ cb₂ : Cb} (r : Round) :
      InputRun m received consumed cb → cb.content.length + r.buf.length < 2 ^ m.bits →
      cbBeginInput m cb r.buf = (cb₁, true) → r.Apart cb₁ → r.used ≤ cb₁.input.length →
      cbEndInputAt m r.base (cb₁.inTail r) { cb₁ with input := cb₁.input.drop r.used }
        = (cb₂, true) →
      InputRun m (received ++ r.buf) (consumed + r.used) cb₂

/-- What a run keeps. -/
structure Cb.Holds (cb : Cb) (rest : List UInt8) : Prop where
  wf : cb.Wf
  content : cb.content = rest
  advanced : cb.Advanced

theorem Cb.Holds.refused {rest : List UInt8} (h : cb.Holds rest)
    (hbegin : cbBeginInput m cb buf = (cb', false)) : cb'.Holds rest := by
  rw [cbBeginInput] at hbegin
  by_cases hshare : (cb.mem.isNone || cb.tail == cb.head) = true
  · rw [if_pos hshare] at hbegin
    cases hbegin
  · rw [if_neg hshare] at hbegin
    have hkeeps := cbEnsureCapacity_keeps m h.wf buf.length
    generalize cbEnsureCapacity m cb buf.length = res at hbegin hkeeps
    obtain ⟨cb1, ok⟩ := res
    cases ok with
    | true => cases hbegin
    | false =>
      cases hbegin
      exact ⟨hkeeps.wf, hkeeps.content.trans h.content,
        fun _ => hkeeps.tail_pos h.wf (by simpa using hshare)⟩

theorem Cb.Reading.compared (hread : cb.Reading) {r : Round} (hapart : r.Apart cb)
    (hadvanced : cb.Advanced) (hbuf : cb.shared = true → cb.input = r.buf) :
    Cb.Reading { cb with shared := cb.mem.isNone || cb.inTail r != r.base + cb.tail } where
  wf := ⟨hread.wf.head_le, hread.wf.tail_le⟩
  borrowed h := by
    by_cases hmem : cb.mem = none
    · exact .inl hmem
    · refine hread.borrowed ?_
      by_contra hshared
      simp [hmem, inTail, hshared] at h
  own h := by
    have hmem : cb.mem ≠ none := by
      intro hnone
      simp [hnone] at h
    refine ⟨hmem, ?_⟩
    cases hshared : cb.shared with
    | false => exact (hread.own hshared).2
    | true =>
      have htail : r.addr + r.buf.length = r.base + cb.tail := by
        simpa [inTail, hshared, isNone_eq_false_iff, isSome_iff_ne_none, hmem] using h
      have hpos := hadvanced hmem
      have hle := hread.wf.tail_le
      have hempty : r.buf = [] := by
        by_contra hne
        have hlen := length_pos_iff.mpr hne
        -- the last byte of the chunk would be in the block
        exact hapart (r.addr + r.buf.length - 1) (by omega) (by omega) ⟨by omega, by omega⟩
      exact (content_of_empty (hread.borrowed hshared)).trans ((hbuf hshared).trans hempty).symm

theorem cbEndInput_advanced (h : cb.Advanced) (hend : cbEndInput m cb = (cb', true)) :
    cb'.Advanced := by
  rw [cbEndInput] at hend
  split at hend
  · split at hend
    · cases hend
      exact h
    · rename_i hinput
      generalize cbEnsureCapacity m cb cb.input.length = res at hend
      obtain ⟨cb1, ok⟩ := res
      cases ok with
      | false => cases hend
      | true =>
        cases hend
        have hlen := length_pos_iff.mpr fun he => hinput (isEmpty_iff.mpr he)
        exact fun _ => Nat.lt_of_lt_of_le hlen (Nat.le_add_left _ _)
  · cases hend
    exact h

theorem Cb.Holds.round {cb1 cb2 : Cb} {rest : List UInt8} {r : Round}
    (h : cb.Holds rest) (hlen : cb.content.length + r.buf.length < 2 ^ m.bits)
    (hbegin : cbBeginInput m cb r.buf = (cb1, true)) (hapart : r.Apart cb1)
    (hend : cbEndInputAt m r.base (cb1.inTail r) { cb1 with input := cb1.input.drop r.used }
      = (cb2, true)) : cb2.Holds ((rest ++ r.buf).drop r.used) := by
  obtain ⟨hread, hinput, hshared, hadvanced⟩ := cbBeginInput_input h.wf hlen hbegin
  have hread' := hread.compared hapart (hadvanced h.advanced) hshared
  have hshort : cb1.input.length < 2 ^ m.bits := by
    rw [hinput, length_append]
    exact hlen
  obtain ⟨hwf, hcontent⟩ := cbEndInput_content hread' hshort hend
  have hcb1 : Cb.Advanced { cb1 with
      input := cb1.input.drop r.used
      shared := cb1.mem.isNone || cb1.inTail r != r.base + cb1.tail } := hadvanced h.advanced
  refine ⟨hwf, hcontent.trans ?_, cbEndInput_advanced hcb1 hend⟩
  rw [← h.content, ← hinput]

theorem InputRun.holds {received : List UInt8} {consumed : Nat}
    (hrun : InputRun m received consumed cb) :
    consumed ≤ received.length ∧ cb.Holds (received.drop consumed) := by
  induction hrun with
  | start => exact ⟨Nat.le_refl _, cbNew_wf, cbNew_content, fun h => absurd rfl h⟩
  | refused buf _ hbegin ih => exact ⟨ih.1, ih.2.refused hbegin⟩
  | round r _ hlen hbegin hapart hused hend ih =>
    obtain ⟨hle, hholds⟩ := ih
    obtain ⟨-, hinput, -⟩ := cbBeginInput_input hholds.wf hlen hbegin
    rw [hinput, hholds.content, length_append, length_drop] at hused
    refine ⟨by rw [length_append]; omega, ?_⟩
    have hnext := hholds.round hlen hbegin hapart hend
    rwa [← drop_append_of_le_length hle, drop_drop] at hnext

/-- **The input buffer.**  At each `cb_begin_input` of a run the reader sees what of the earlier
chunks has not been used, and then the new one; `cb_ensure_capacity` keeps what a buffer holds, and
when it returns 0 there is room. -/
theorem input_visible (m : Machine) :
    (∀ {received : List UInt8} {consumed : Nat} {cb cb' : Cb} {buf : List UInt8},
      InputRun m received consumed cb →
      (received.drop consumed).length + buf.length < 2 ^ m.bits →
      cbBeginInput m cb buf = (cb', true) → cb'.input = received.drop consumed ++ buf) ∧
    ∀ {cb : Cb} {needed : Nat}, cb.Wf → cb.content.length + needed < 2 ^ m.bits →
      (cbEnsureCapacity m cb needed).1.content = cb.content ∧
      ((cbEnsureCapacity m cb needed).2 = true →
        needed ≤ (cbEnsureCapacity m cb needed).1.block.length -
          (cbEnsureCapacity m cb needed).1.tail) := by
  constructor
  · intro received consumed cb cb' buf hrun hlen hbegin
    obtain ⟨-, hholds⟩ := hrun.holds
    rw [← hholds.content] at hlen ⊢
    exact (cbBeginInput_input hholds.wf hlen hbegin).2.1
  · intro cb needed hwf hlen
    have hkeeps := cbEnsureCapacity_keeps m hwf needed
    rw [Cb.length_content hwf] at hlen
    refine ⟨hkeeps.content, fun hok => ?_⟩
    have hroom := (hkeeps.room hok hlen).1
    omega

theorem input_visible_copied : ∃ cb cb', InputRun .generous [1, 2, 3] 1 cb ∧
    cbBeginInput .generous cb [4] = (cb', true) ∧ cb'.input = [2, 3, 4] := by
  let r : Round := ⟨[1, 2, 3], 4096, 8192, 1⟩
  have hapart : r.Apart { cbNew with input := [1, 2, 3], shared := true } := by
    intro x _ _ hx
    exact absurd (Nat.lt_of_le_of_lt hx.1 hx.2) (Nat.lt_irrefl _)
  have hend := cbEndInput_ok (m := .generous) fun _ => rfl
  obtain ⟨cb, hrun⟩ : ∃ cb, InputRun .generous [1, 2, 3] 1 cb :=
    ⟨_, .round r .start (by decide) rfl hapart (by decide) (Prod.ext rfl (hend _))⟩
  obtain ⟨cb', hcopied⟩ : ∃ cb', cbBeginInput .generous cb [4] = (cb', true) :=
    ⟨_, Prod.ext rfl (cbBeginInput_ok (fun _ => rfl) cb [4])⟩
  exact ⟨cb, cb', hrun, hcopied, (input_visible .generous).1 hrun (by decide) hcopied⟩

end IDeviceStack.WebkitProxy
