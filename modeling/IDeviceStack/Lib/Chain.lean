/-
# `Lib.Chain` — singly linked chains

A memory gives some addresses a node: what it holds, and a link to the next one.
A chain is followed from a link to its end; nodes are taken out of it and put
before it by setting links.
-/
import Mathlib.Logic.Function.Basic
import Mathlib.Data.List.Basic

namespace IDeviceStack.Lib.Sll

variable {κ β : Type} {m m' : κ → Option (β × Option κ)} {p : Option κ} {xs ys : List (κ × β)}

/-- From `p`, the links go through the nodes of the list and end. -/
def Chain (m : κ → Option (β × Option κ)) : Option κ → List (κ × β) → Prop
  | p, [] => p = none
  | p, (a, b) :: xs => p = some a ∧ ∃ n, m a = some (b, n) ∧ Chain m n xs

/-- The address of the last node, or `p`. -/
def lastAddr (p : Option κ) (xs : List (κ × β)) : Option κ := xs.foldl (fun _ x => some x.1) p

theorem Chain.congr (h : Chain m p xs) (heq : ∀ x ∈ xs, m' x.1 = m x.1) : Chain m' p xs := by
  induction xs generalizing p with
  | nil => exact h
  | cons x xs ih =>
    obtain ⟨hp, n, hx, hrest⟩ := h
    refine ⟨hp, n, ?_, ih hrest fun y hy => heq y (List.mem_cons_of_mem x hy)⟩
    rw [← hx]
    exact heq x List.mem_cons_self

theorem Chain.node (h : Chain m p xs) {x : κ × β} (hx : x ∈ xs) : ∃ n, m x.1 = some (x.2, n) := by
  induction xs generalizing p with
  | nil => cases hx
  | cons y xs ih =>
    obtain ⟨-, n, hy, hrest⟩ := h
    rcases List.mem_cons.mp hx with rfl | hx
    · exact ⟨n, hy⟩
    · exact ih hrest hx

/-- What an address holds is the same in any chain. -/
theorem Chain.same {q : Option κ} (h : Chain m p xs) (h' : Chain m q ys) {x y : κ × β}
    (hx : x ∈ xs) (hy : y ∈ ys) (haddr : x.1 = y.1) : x.2 = y.2 := by
  obtain ⟨n, hn⟩ := h.node hx
  obtain ⟨n', hn'⟩ := h'.node hy
  rw [haddr, hn'] at hn
  exact (Prod.mk.inj (Option.some.inj hn)).1.symm

theorem Chain.split {c : κ} {b : β} (h : Chain m p (xs ++ (c, b) :: ys)) :
    ∃ n, m c = some (b, n) ∧ Chain m n ys := by
  induction xs generalizing p with
  | nil => exact h.2
  | cons x xs ih =>
    obtain ⟨-, n, -, hrest⟩ := h
    exact ih hrest

/-! ## Following a chain -/

/-- The first node from `curr` on that passes, and the one before it; at most `fuel` links are
followed, and no link to an address without a node. -/
def walk (test : β → Bool) (m : κ → Option (β × Option κ)) :
    Nat → Option κ → Option κ → Option (Option κ × Option κ)
  | _, prev, none => some (prev, none)
  | 0, _, some _ => none
  | fuel + 1, prev, some a =>
    match m a with
    | none => none
    | some (b, next) =>
      if test b then some (prev, some a) else walk test m fuel (some a) next

theorem Chain.walk (h : Chain m p xs) (test : β → Bool) {fuel : Nat} (hfuel : xs.length ≤ fuel)
    (prev : Option κ) :
    (∀ x ∈ xs, test x.2 = false) ∧ Sll.walk test m fuel prev p = some (lastAddr prev xs, none) ∨
    ∃ ys c b zs, xs = ys ++ (c, b) :: zs ∧ (∀ x ∈ ys, test x.2 = false) ∧ test b = true ∧
      Sll.walk test m fuel prev p = some (lastAddr prev ys, some c) := by
  induction xs generalizing p prev fuel with
  | nil =>
    obtain rfl : p = none := h
    refine .inl ⟨by simp, ?_⟩
    rw [Sll.walk]
    rfl
  | cons x xs ih =>
    obtain ⟨rfl, n, hx, hrest⟩ := h
    obtain ⟨fuel, rfl⟩ := Nat.exists_eq_add_one_of_ne_zero (Nat.ne_of_gt (Nat.lt_of_lt_of_le
      (Nat.succ_pos xs.length) hfuel))
    rw [Sll.walk, hx]
    cases htest : test x.2 with
    | true => exact .inr ⟨[], x.1, x.2, xs, rfl, by simp, htest, by simp [htest, lastAddr]⟩
    | false =>
      simp only [htest, Bool.false_eq_true, if_false]
      have hle : xs.length ≤ fuel := Nat.le_of_succ_le_succ hfuel
      rcases ih hrest hle (some x.1) with ⟨hall, hwalk⟩ | ⟨ys, c, b, zs, rfl, hall, hb, hwalk⟩
      · exact .inl ⟨by simpa [htest] using hall, hwalk⟩
      · exact .inr ⟨x :: ys, c, b, zs, rfl, by simpa [htest] using hall, hb, hwalk⟩

/-- The nodes from `curr` on. -/
def nodes (m : κ → Option (β × Option κ)) : Nat → Option κ → Option (List (κ × β))
  | _, none => some []
  | 0, some _ => none
  | fuel + 1, some a =>
    match m a with
    | none => none
    | some (b, next) => (nodes m fuel next).map ((a, b) :: ·)

theorem Chain.nodes (h : Chain m p xs) {fuel : Nat} (hfuel : xs.length ≤ fuel) :
    Sll.nodes m fuel p = some xs := by
  induction xs generalizing p fuel with
  | nil =>
    obtain rfl : p = none := h
    rw [Sll.nodes]
  | cons x xs ih =>
    obtain ⟨rfl, n, hx, hrest⟩ := h
    obtain ⟨fuel, rfl⟩ := Nat.exists_eq_add_one_of_ne_zero (Nat.ne_of_gt (Nat.lt_of_lt_of_le
      (Nat.succ_pos xs.length) hfuel))
    rw [Sll.nodes, hx]
    simp only [ih hrest (Nat.le_of_succ_le_succ hfuel), Option.map_some]

/-! ## Setting links -/

variable [DecidableEq κ]

/-- `a->next = p`. -/
def setNext (m : κ → Option (β × Option κ)) (a : κ) (p : Option κ) : κ → Option (β × Option κ) :=
  Function.update m a ((m a).map fun node => (node.1, p))

theorem setNext_of_ne {a x : κ} (h : x ≠ a) (p : Option κ) : setNext m a p x = m x :=
  Function.update_of_ne h _ _

theorem setNext_self {a : κ} {b : β} {n : Option κ} (h : m a = some (b, n)) (p : Option κ) :
    setNext m a p a = some (b, p) := by
  rw [setNext, Function.update_self, h, Option.map_some]

/-- A link set to the middle of the chain takes out what lies between. -/
theorem Chain.unlink {a : κ} {b : β} {n : Option κ} (h : Chain m p (xs ++ [(a, b)] ++ ys))
    {zs : List (κ × β)} (hzs : Chain m n zs) (hxs : ∀ x ∈ xs, x.1 ≠ a) (hout : ∀ z ∈ zs, z.1 ≠ a) :
    Chain (setNext m a n) p (xs ++ [(a, b)] ++ zs) := by
  induction xs generalizing p with
  | nil =>
    obtain ⟨hp, n', ha, -⟩ := h
    exact ⟨hp, n, setNext_self ha n, hzs.congr fun z hz => setNext_of_ne (hout z hz) n⟩
  | cons x xs ih =>
    obtain ⟨hp, n', hx, hrest⟩ := h
    refine ⟨hp, n', ?_, ih hrest fun y hy => hxs y (List.mem_cons_of_mem x hy)⟩
    rw [← hx]
    exact setNext_of_ne (hxs x List.mem_cons_self) n

/-- A node gets another content. -/
theorem Chain.rewrite {a : κ} {b b' : β} {n : Option κ} (h : Chain m p (xs ++ (a, b) :: ys))
    (ha : m a = some (b, n)) (hout : ∀ x ∈ xs ++ ys, x.1 ≠ a) :
    Chain (Function.update m a (some (b', n))) p (xs ++ (a, b') :: ys) := by
  induction xs generalizing p with
  | nil =>
    obtain ⟨hp, n', ha', hrest⟩ := h
    obtain rfl : n = n' := (Prod.mk.inj (Option.some.inj (ha.symm.trans ha'))).2
    exact ⟨hp, n, Function.update_self a _ m,
      hrest.congr fun x hx => Function.update_of_ne (hout x hx) _ _⟩
  | cons x xs ih =>
    obtain ⟨hp, n', hx, hrest⟩ := h
    refine ⟨hp, n', ?_, ih hrest fun y hy => hout y (List.mem_cons_of_mem x hy)⟩
    rw [← hx]
    exact Function.update_of_ne (hout x List.mem_cons_self) _ _

/-- `a->next = *head; *head = a`. -/
theorem Chain.push {a : κ} {b : β} {n : Option κ} (h : Chain m p xs) (ha : m a = some (b, n))
    (hout : ∀ x ∈ xs, x.1 ≠ a) : Chain (setNext m a p) (some a) ((a, b) :: xs) :=
  ⟨rfl, p, setNext_self ha p, h.congr fun x hx => setNext_of_ne (hout x hx) p⟩

end IDeviceStack.Lib.Sll
