/-
# `Lib.Receive` — receive loops

A receiver keeps a state and the bytes it has not used yet.  When bytes arrive it
takes one *turn* after the other: a turn looks at the bytes at hand and either
waits for more, or uses some of them and goes on, or uses some of them and stops.

**Proved here.**  If a turn does not look behind the bytes it uses, and a turn
that waits can be taken again, then the ends of the chunks leave no trace: a
receiver that got the bytes in pieces is where it would be had they come at once
(`Drains.append`, `receive_flatten`).  This needs that a loop that stops does so for
good, or that it does not stop before the end.
-/
import Mathlib.Data.List.Basic

namespace IDeviceStack.Lib

open List

variable {σ β : Type}

/-- The outcome of one turn. -/
inductive Turn (σ : Type) where
  /-- More bytes are needed. -/
  | wait (s : σ)
  /-- `n` bytes were used. -/
  | go (s : σ) (n : Nat)
  /-- `n` bytes were used, and the loop is left. -/
  | halt (s : σ) (n : Nat)

/-- The loop: turns are taken until one waits or stops, or no bytes are left. -/
def drain (turn : σ → List β → Turn σ) : Nat → σ → List β → σ × List β
  | 0, s, u => (s, u)
  | fuel + 1, s, u =>
    match turn s u with
    | .wait s' => (s', u)
    | .halt s' n => (s', u.drop n)
    | .go s' n => if (u.drop n).isEmpty then (s', []) else drain turn fuel s' (u.drop n)

/-- Whole runs of the loop; the last argument tells whether a turn stopped it. -/
inductive Drains (turn : σ → List β → Turn σ) : σ → List β → σ → List β → Bool → Prop
  | wait {s s' : σ} {u : List β} : turn s u = .wait s' → Drains turn s u s' u false
  | halt {s s' : σ} {u : List β} {n : Nat} :
      turn s u = .halt s' n → Drains turn s u s' (u.drop n) true
  | last {s s' : σ} {u : List β} {n : Nat} :
      turn s u = .go s' n → u.drop n = [] → Drains turn s u s' [] false
  | more {s s' s'' : σ} {u u'' : List β} {n : Nat} {b : Bool} :
      turn s u = .go s' n → u.drop n ≠ [] → Drains turn s' (u.drop n) s'' u'' b →
      Drains turn s u s'' u'' b

/-- What makes a loop indifferent to the ends of the chunks, for streams shorter than `limit`.
`Inv` is what a state may count on of the bytes at hand. -/
structure Stable (turn : σ → List β → Turn σ) (Inv : σ → List β → Prop) (limit : Nat) : Prop where
  append : ∀ {s u} (v : List β), Inv s u → Inv s (u ++ v)
  wait : ∀ {s u s'}, Inv s u → turn s u = .wait s' →
    Inv s' u ∧ ∀ v, v ≠ [] → (u ++ v).length < limit → turn s' (u ++ v) = turn s (u ++ v)
  go : ∀ {s u s' n}, Inv s u → turn s u = .go s' n →
    n ≤ u.length ∧ Inv s' (u.drop n) ∧
      ∀ v, (u ++ v).length < limit → turn s (u ++ v) = .go s' n
  halt : ∀ {s u s' n}, Inv s u → turn s u = .halt s' n →
    n ≤ u.length ∧ Inv s' (u.drop n) ∧
      ∀ v, (u ++ v).length < limit → turn s (u ++ v) = .halt s' n

variable {turn : σ → List β → Turn σ} {Inv : σ → List β → Prop} {limit : Nat}

variable {s s' : σ} {u u' : List β} {b : Bool}

/-- Only the first turn of a run looks at the state. -/
theorem Drains.of_turn_eq {t : σ} (heq : turn s u = turn t u) (h : Drains turn t u s' u' b) :
    Drains turn s u s' u' b := by
  cases h with
  | wait ht => exact .wait (heq.trans ht)
  | halt ht => exact .halt (heq.trans ht)
  | last ht hnil => exact .last (heq.trans ht) hnil
  | more ht hne hrest => exact .more (heq.trans ht) hne hrest

theorem Drains.inv (hst : Stable turn Inv limit) (h : Drains turn s u s' u' b) (hinv : Inv s u) :
    Inv s' u' := by
  induction h with
  | wait ht => exact (hst.wait hinv ht).1
  | halt ht => exact (hst.halt hinv ht).2.1
  | last ht hnil =>
    have hnext := (hst.go hinv ht).2.1
    rwa [hnil] at hnext
  | more ht _ _ ih => exact ih (hst.go hinv ht).2.1

/-- A turn that goes on does so with more bytes behind, too. -/
theorem Drains.more_append (hst : Stable turn Inv limit) {s s1 s' : σ} {u u' v : List β} {n : Nat}
    {b : Bool} (hinv : Inv s u) (ht : turn s u = .go s1 n) (hv : v ≠ [])
    (hlen : (u ++ v).length < limit)
    (hrest : Inv s1 (u.drop n) → (u.drop n ++ v).length < limit →
      Drains turn s1 (u.drop n ++ v) s' u' b) : Drains turn s (u ++ v) s' u' b := by
  obtain ⟨hn, hnext, hsame⟩ := hst.go hinv ht
  have hlen' : (u.drop n ++ v).length < limit := by
    rw [length_append] at hlen ⊢
    rw [length_drop]
    omega
  rw [← drop_append_of_le_length hn] at hrest hlen'
  refine .more (hsame v hlen) ?_ (hrest hnext hlen')
  rw [drop_append_of_le_length hn]
  exact append_ne_nil_of_right_ne_nil _ hv

/-- **Two chunks.**  A run on `u` and a run on what it left and `v` are a run on `u ++ v`. -/
theorem Drains.append (hst : Stable turn Inv limit) {s'' : σ} {u'' v : List β} {b' : Bool}
    (h : Drains turn s u s' u' b) (hinv : Inv s u) (hstop : b = true → ∀ w, turn s' w = .wait s')
    (hv : v ≠ []) (hlen : (u ++ v).length < limit) (h' : Drains turn s' (u' ++ v) s'' u'' b') :
    Drains turn s (u ++ v) s'' u'' (b || b') := by
  induction h with
  | wait ht =>
    rw [Bool.false_or]
    exact h'.of_turn_eq ((hst.wait hinv ht).2 v hv hlen).symm
  | @halt s s' u n ht =>
    obtain ⟨hn, -, hsame⟩ := hst.halt hinv ht
    rw [Bool.true_or]
    -- a stopped loop takes no further turn
    have hwait := hstop rfl
    have hdrop : (u ++ v).drop n = u.drop n ++ v := drop_append_of_le_length hn
    cases h' with
    | wait ht' =>
      rw [hwait] at ht'
      cases ht'
      rw [← hdrop]
      exact .halt (hsame v hlen)
    | halt ht' =>
      rw [hwait] at ht'
      cases ht'
    | last ht' _ =>
      rw [hwait] at ht'
      cases ht'
    | more ht' _ _ =>
      rw [hwait] at ht'
      cases ht'
  | last ht hnil =>
    rw [Bool.false_or]
    exact .more_append hst hinv ht hv hlen fun _ _ => by rwa [hnil]
  | more ht _ _ ih =>
    exact .more_append hst hinv ht hv hlen fun hnext hlen' => ih hnext hstop hlen' h'

/-- A loop that was stopped would have stopped there with more bytes behind, too. -/
theorem Drains.halted_append (hst : Stable turn Inv limit) {v : List β}
    (h : Drains turn s u s' u' true) (hinv : Inv s u) (hv : v ≠ [])
    (hlen : (u ++ v).length < limit) : Drains turn s (u ++ v) s' (u' ++ v) true := by
  generalize hb : true = b at h
  induction h with
  | wait _ => cases hb
  | @halt s s' u n ht =>
    obtain ⟨hn, -, hsame⟩ := hst.halt hinv ht
    rw [← drop_append_of_le_length hn]
    exact .halt (hsame v hlen)
  | last _ _ => cases hb
  | more ht _ _ ih =>
    exact .more_append hst hinv ht hv hlen fun hnext hlen' => ih hnext hlen' hb

theorem Drains.deterministic {s'' : σ} {u'' : List β} {b' : Bool} (h : Drains turn s u s' u' b)
    (h' : Drains turn s u s'' u'' b') : s' = s'' ∧ u' = u'' ∧ b = b' := by
  induction h with
  | wait ht =>
    cases h' with
    | wait ht' =>
      rw [ht] at ht'
      cases ht'
      exact ⟨rfl, rfl, rfl⟩
    | halt ht' => rw [ht] at ht'; cases ht'
    | last ht' _ => rw [ht] at ht'; cases ht'
    | more ht' _ _ => rw [ht] at ht'; cases ht'
  | halt ht =>
    cases h' with
    | wait ht' => rw [ht] at ht'; cases ht'
    | halt ht' =>
      rw [ht] at ht'
      cases ht'
      exact ⟨rfl, rfl, rfl⟩
    | last ht' _ => rw [ht] at ht'; cases ht'
    | more ht' _ _ => rw [ht] at ht'; cases ht'
  | last ht hnil =>
    cases h' with
    | wait ht' => rw [ht] at ht'; cases ht'
    | halt ht' => rw [ht] at ht'; cases ht'
    | last ht' _ =>
      rw [ht] at ht'
      cases ht'
      exact ⟨rfl, rfl, rfl⟩
    | more ht' hne _ =>
      rw [ht] at ht'
      cases ht'
      exact absurd hnil hne
  | more ht hne _ ih =>
    cases h' with
    | wait ht' => rw [ht] at ht'; cases ht'
    | halt ht' => rw [ht] at ht'; cases ht'
    | last ht' hnil =>
      rw [ht] at ht'
      cases ht'
      exact absurd hnil hne
    | more ht' _ hrest =>
      rw [ht] at ht'
      cases ht'
      exact ih hrest

/-! ## The loop as a function -/

/-- A bound on the turns: every turn that goes on makes it smaller. -/
def Decreases (turn : σ → List β → Turn σ) (rank : σ → List β → Nat) : Prop :=
  ∀ s u s' n, turn s u = .go s' n → rank s' (u.drop n) < rank s u

/-- With enough fuel, the function is a run of the loop. -/
theorem drains_drain {rank : σ → List β → Nat} (hrank : Decreases turn rank) {fuel : Nat}
    (hfuel : rank s u < fuel) :
    ∃ b, Drains turn s u (drain turn fuel s u).1 (drain turn fuel s u).2 b := by
  induction fuel generalizing s u with
  | zero => omega
  | succ fuel ih =>
    rw [drain]
    cases ht : turn s u with
    | wait s' => exact ⟨false, .wait ht⟩
    | halt s' n => exact ⟨true, .halt ht⟩
    | go s' n =>
      dsimp only
      by_cases hnil : u.drop n = []
      · rw [if_pos (by rw [hnil]; rfl)]
        exact ⟨false, .last ht hnil⟩
      · rw [if_neg (by simpa using hnil)]
        have hlt := hrank s u s' n ht
        obtain ⟨b, hrest⟩ := ih (s := s') (u := u.drop n) (by omega)
        exact ⟨b, .more ht hnil hrest⟩

/-- The loop with the fuel that its rank asks for. -/
def drainAll (turn : σ → List β → Turn σ) (rank : σ → List β → Nat) (s : σ) (u : List β) :
    σ × List β :=
  drain turn (rank s u + 1) s u

/-- A chunk arrives.  An empty one is no occasion for a turn. -/
def receive (turn : σ → List β → Turn σ) (rank : σ → List β → Nat) (w : σ × List β)
    (chunk : List β) : σ × List β :=
  if chunk.isEmpty then w else drainAll turn rank w.1 (w.2 ++ chunk)

variable {rank : σ → List β → Nat}

variable {w : σ × List β}

/-- A run tells what is received. -/
theorem receive_eq_of_drains (hrank : Decreases turn rank) {c : List β} (hc : c ≠ [])
    (h : Drains turn w.1 (w.2 ++ c) s u b) : receive turn rank w c = (s, u) := by
  rw [receive, if_neg (by simpa using hc)]
  obtain ⟨b', hrun⟩ := drains_drain hrank (Nat.lt_succ_self (rank w.1 (w.2 ++ c)))
  obtain ⟨hs, hu, -⟩ := hrun.deterministic h
  exact Prod.ext hs hu

theorem receive_inv (hst : Stable turn Inv limit) (hrank : Decreases turn rank) (hinv : Inv w.1 w.2)
    (chunk : List β) : Inv (receive turn rank w chunk).1 (receive turn rank w chunk).2 := by
  rw [receive]
  by_cases hnil : chunk.isEmpty = true
  · rw [if_pos hnil]
    exact hinv
  · rw [if_neg hnil]
    obtain ⟨b, hrun⟩ := drains_drain hrank (Nat.lt_succ_self (rank w.1 (w.2 ++ chunk)))
    exact hrun.inv hst (hst.append chunk hinv)

/-- A stopped loop stays where it is. -/
def StopsForGood (turn : σ → List β → Turn σ) : Prop :=
  ∀ s u s' n, turn s u = .halt s' n → ∀ w, turn s' w = .wait s'

theorem Drains.stopped (hgood : StopsForGood turn) (h : Drains turn s u s' u' b) :
    b = true → ∀ w, turn s' w = .wait s' := by
  induction h with
  | wait _ => exact fun hb => by cases hb
  | halt ht => exact fun _ => hgood _ _ _ _ ht
  | last _ _ => exact fun hb => by cases hb
  | more _ _ _ ih => exact ih

/-- The bytes that are left are the last ones. -/
theorem drain_eq_drop (turn : σ → List β → Turn σ) (fuel : Nat) (s : σ) (u : List β) :
    ∃ n, (drain turn fuel s u).2 = u.drop n := by
  induction fuel generalizing s u with
  | zero => exact ⟨0, rfl⟩
  | succ fuel ih =>
    rw [drain]
    cases turn s u with
    | wait s' => exact ⟨0, rfl⟩
    | halt s' n => exact ⟨n, rfl⟩
    | go s' n =>
      dsimp only
      split
      · next hnil => exact ⟨n, (isEmpty_iff.mp hnil).symm⟩
      · obtain ⟨k, hk⟩ := ih s' (u.drop n)
        exact ⟨n + k, by rw [hk, drop_drop]⟩

theorem length_receive_le (turn : σ → List β → Turn σ) (rank : σ → List β → Nat) (w : σ × List β)
    (chunk : List β) : (receive turn rank w chunk).2.length ≤ w.2.length + chunk.length := by
  rw [receive]
  split
  · exact Nat.le_add_right _ _
  · obtain ⟨n, hn⟩ := drain_eq_drop turn (rank w.1 (w.2 ++ chunk) + 1) w.1 (w.2 ++ chunk)
    rw [drainAll, hn, length_drop, length_append]
    omega

/-- A loop that uses all bytes in the end does not stop before. -/
theorem drains_of_drained (hst : Stable turn Inv limit) (hrank : Decreases turn rank)
    {w : σ × List β} (hinv : Inv w.1 w.2) {c c' : List β} (hc : c ≠ []) (hc' : c' ≠ [])
    (hused : (receive turn rank w (c ++ c')).2 = []) (hlen : (w.2 ++ (c ++ c')).length < limit) :
    Drains turn w.1 (w.2 ++ c) (receive turn rank w c).1 (receive turn rank w c).2 false := by
  have hne : ¬ c.isEmpty = true := by simpa using hc
  have hboth : ¬ (c ++ c').isEmpty = true := by simp [hc]
  rw [receive, if_neg hboth] at hused
  rw [receive, if_neg hne]
  obtain ⟨b1, h1⟩ := drains_drain hrank (Nat.lt_succ_self (rank w.1 (w.2 ++ c)))
  obtain ⟨b2, h2⟩ := drains_drain hrank (Nat.lt_succ_self (rank w.1 (w.2 ++ (c ++ c'))))
  rw [← append_assoc] at h2 hlen hused
  cases b1 with
  | false => exact h1
  | true =>
    have hleft := h1.halted_append hst (hst.append c hinv) hc' hlen
    obtain ⟨-, hu, -⟩ := hleft.deterministic h2
    have hnil := hu.trans hused
    exact absurd (append_eq_nil_iff.mp hnil).2 hc'

/-- A loop that was not stopped is out of bytes, or waits. -/
theorem Drains.waits (h : Drains turn s u s' u' false) : u' = [] ∨ ∃ t, turn t u' = .wait s' := by
  generalize hb : false = b at h
  induction h with
  | wait ht => exact .inr ⟨_, ht⟩
  | halt _ => cases hb
  | last _ _ => exact .inl rfl
  | more _ _ _ ih => exact ih hb

/-- Two chunks are received like one, if a stop is for good or all bytes are used in the end. -/
theorem receive_append (hst : Stable turn Inv limit) (hrank : Decreases turn rank) {w : σ × List β}
    (hinv : Inv w.1 w.2) (c c' : List β)
    (hgood : StopsForGood turn ∨ (receive turn rank w (c ++ c')).2 = [])
    (hlen : (w.2 ++ (c ++ c')).length < limit) :
    receive turn rank (receive turn rank w c) c' = receive turn rank w (c ++ c') := by
  by_cases hc : c = []
  · subst hc
    rw [nil_append]
    rfl
  by_cases hc' : c' = []
  · subst hc'
    rw [append_nil]
    rfl
  have hne : ¬ c.isEmpty = true := by simpa using hc
  have hne' : ¬ c'.isEmpty = true := by simpa using hc'
  have hboth : ¬ (c ++ c').isEmpty = true := by simp [hc]
  obtain ⟨b1, h1, hstop⟩ : ∃ b, Drains turn w.1 (w.2 ++ c) (receive turn rank w c).1
      (receive turn rank w c).2 b ∧
        (b = true → ∀ u, turn (receive turn rank w c).1 u = .wait (receive turn rank w c).1) := by
    rcases hgood with hgood | hused
    · rw [receive, if_neg hne]
      obtain ⟨b, h⟩ := drains_drain hrank (Nat.lt_succ_self (rank w.1 (w.2 ++ c)))
      exact ⟨b, h, h.stopped hgood⟩
    · exact ⟨false, drains_of_drained hst hrank hinv hc hc' hused hlen,
        fun h => absurd h Bool.false_ne_true⟩
  rw [receive, if_neg hne', receive.eq_def _ _ w (c ++ c'), if_neg hboth]
  obtain ⟨b2, h2⟩ := drains_drain hrank (Nat.lt_succ_self (rank
    (receive turn rank w c).1 ((receive turn rank w c).2 ++ c')))
  obtain ⟨b3, h3⟩ := drains_drain hrank (Nat.lt_succ_self (rank w.1 (w.2 ++ (c ++ c'))))
  rw [← append_assoc] at h3 hlen ⊢
  have hone := h1.append hst (hst.append c hinv) hstop hc' hlen h2
  obtain ⟨hs, hu, -⟩ := hone.deterministic h3
  exact Prod.ext hs hu

/-- **Chunks leave no trace.** -/
theorem receive_flatten (hst : Stable turn Inv limit) (hrank : Decreases turn rank)
    (chunks : List (List β)) (hinv : Inv w.1 w.2)
    (hgood : StopsForGood turn ∨ (receive turn rank w chunks.flatten).2 = [])
    (hlen : w.2.length + chunks.flatten.length < limit) :
    chunks.foldl (receive turn rank) w = receive turn rank w chunks.flatten := by
  induction chunks generalizing w with
  | nil => rfl
  | cons c chunks ih =>
    rw [flatten_cons, length_append] at hlen
    rw [flatten_cons] at hgood
    have hshort := length_receive_le turn rank w c
    have htwo := receive_append hst hrank hinv c chunks.flatten hgood
      (by simp only [length_append]; omega)
    rw [← htwo] at hgood
    rw [foldl_cons, ih (receive_inv hst hrank hinv c) hgood (by omega), flatten_cons, htwo]

end IDeviceStack.Lib
