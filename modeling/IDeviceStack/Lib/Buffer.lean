/-
# `Lib.Buffer` — fixed-size buffers and chronological traces

Two small notions the daemon models share, stated over an arbitrary element
type so that nothing here mentions a program.

* A *buffer* is a list of fixed length; `memcpy` and `memmove` overwrite a
  segment of it.  A C function keeps a fill count next to the buffer, and what
  it means by "the contents" is the prefix of that length, so the lemmas say
  what the two operations do to a prefix.

* A *trace* is a list of observations in the order they were made.
  `EachAt P t` says that every observation of `t` satisfies `P` against the
  part of the trace before it: the form a safety property takes when it speaks
  about "the moment" something is sent.
-/
import Mathlib.Data.List.Basic

namespace IDeviceStack.Lib

open List

variable {α : Type*}

/-! ## Buffers -/

/-- Overwrite `src.length` elements of `buf` from offset `off` on. -/
def memcpy (buf : List α) (off : Nat) (src : List α) : List α :=
  buf.take off ++ src ++ buf.drop (off + src.length)

/-- Copy the `n` elements from offset `src` to offset `dst` of the same buffer. -/
def memmove (buf : List α) (dst src n : Nat) : List α :=
  memcpy buf dst ((buf.drop src).take n)

theorem length_memcpy {buf src : List α} {off : Nat} (h : off + src.length ≤ buf.length) :
    (memcpy buf off src).length = buf.length := by
  simp only [memcpy, length_append, length_take, length_drop]
  omega

/-- The prefix that ends with the copied elements. -/
theorem take_memcpy {buf src : List α} {off : Nat} (h : off + src.length ≤ buf.length) :
    (memcpy buf off src).take (off + src.length) = buf.take off ++ src := by
  have hlen : (buf.take off ++ src).length = off + src.length := by
    simp only [length_append, length_take]
    omega
  rw [memcpy, ← hlen, take_left]

theorem length_memmove {buf : List α} {src n : Nat} (h : src + n ≤ buf.length) :
    (memmove buf 0 src n).length = buf.length := by
  apply length_memcpy
  simp only [length_take, length_drop]
  omega

/-- Moving the tail of the contents to the front leaves that tail as the new contents. -/
theorem take_memmove {buf : List α} {src n : Nat} (h : src + n ≤ buf.length) :
    (memmove buf 0 src n).take n = (buf.drop src).take n := by
  have hlen : ((buf.drop src).take n).length = n := by
    simp only [length_take, length_drop]
    omega
  have hcopy := take_memcpy (show 0 + ((buf.drop src).take n).length ≤ buf.length by omega)
  simpa only [memmove, hlen, Nat.zero_add, take_zero, nil_append] using hcopy

/-- The contents split at the number of elements taken from the front. -/
theorem take_split {buf : List α} {k n : Nat} (h : k ≤ n) :
    buf.take n = buf.take k ++ (buf.drop k).take (n - k) := by
  conv_lhs => rw [show n = k + (n - k) by omega, take_add]

/-! ## Traces -/

/-- Every entry of `t` satisfies `P` against the part of the trace before it. -/
def EachAt (P : List α → α → Prop) (t : List α) : Prop :=
  ∀ pre x post, t = pre ++ x :: post → P pre x

theorem eachAt_nil {P : List α → α → Prop} : EachAt P [] := by
  intro pre x post h
  simp at h

theorem EachAt.left {P : List α → α → Prop} {t u : List α} (h : EachAt P (t ++ u)) :
    EachAt P t := by
  intro pre x post hsplit
  refine h pre x (post ++ u) ?_
  rw [hsplit, append_assoc, cons_append]

theorem eachAt_snoc {P : List α → α → Prop} {t : List α} {x : α} :
    EachAt P (t ++ [x]) ↔ EachAt P t ∧ P t x := by
  constructor
  · intro h
    exact ⟨h.left, h t x [] rfl⟩
  · rintro ⟨h, hx⟩ pre y post hsplit
    rcases eq_nil_or_concat post with rfl | ⟨post', z, rfl⟩
    · obtain ⟨rfl, hy⟩ := append_inj' hsplit rfl
      obtain rfl := (List.cons.inj hy).1
      exact hx
    · rw [concat_eq_append, ← cons_append, ← append_assoc] at hsplit
      exact h pre y post' (append_inj' hsplit rfl).1

end IDeviceStack.Lib
