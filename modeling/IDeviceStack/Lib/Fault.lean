/-
# `Lib.Fault` — programs that can go wrong

A program with a state that may stop with a *fault*: a use of memory that is not
there, a lock that is taken twice.  `Meets m s Q E` says of the program `m` started in
`s` that it comes to an end with `Q`, or stops with a fault that `E` allows.

**Proved here.**  The rules for sequence, choice and loops, what keeps an invariant
(`Preserves`), and the rules for a machine
that takes one event after the other: what every step keeps, a whole run keeps
(`Along.inv`), and a fault of a run is a fault of one of its steps
(`Along.fault`).
-/
import Mathlib.Logic.Basic

namespace IDeviceStack.Lib

/-- A program on the state `σ` that may stop with a fault `ε`. -/
abbrev Prog (σ ε α : Type) := StateT σ (Except ε) α

variable {σ ε α β ι : Type}

/-- The end of a program: `Q` of its result and the state, or a fault in `E`. -/
def Ends (Q : α → σ → Prop) (E : ε → Prop) : Except ε (α × σ) → Prop
  | .ok r => Q r.1 r.2
  | .error f => E f

/-- The program `m`, started in `s`, ends with `Q`, or with a fault in `E`. -/
def Meets (m : Prog σ ε α) (s : σ) (Q : α → σ → Prop) (E : ε → Prop) : Prop := Ends Q E (m s)

section Rules

variable {m : Prog σ ε α} {f : α → Prog σ ε β} {s : σ} {Q R : α → σ → Prop} {S : β → σ → Prop}
  {E F : ε → Prop}

theorem Meets.mono (h : Meets m s Q E) (hQ : ∀ a s', Q a s' → R a s') (hE : ∀ e, E e → F e) :
    Meets m s R F := by
  revert h
  rw [Meets, Meets]
  cases m s with
  | ok r => exact hQ r.1 r.2
  | error e => exact hE e

theorem Meets.post (h : Meets m s Q E) (hQ : ∀ a s', Q a s' → R a s') : Meets m s R E :=
  h.mono hQ fun _ he => he

theorem Meets.both (h : Meets m s Q E) (h' : Meets m s R F) :
    Meets m s (fun a s' => Q a s' ∧ R a s') E := by
  revert h h'
  rw [Meets, Meets, Meets]
  cases m s with
  | ok r => exact fun h h' => ⟨h, h'⟩
  | error e => exact fun h _ => h

/-- Every program ends in some way. -/
theorem Meets.trivial : Meets m s (fun _ _ => True) fun _ => True := by
  rw [Meets]
  cases m s <;> exact True.intro

/-- What `m` ends with is what it computes. -/
theorem Meets.result (h : Meets m s Q E) : Meets m s (fun a s' => Q a s' ∧ m s = .ok (a, s')) E := by
  revert h
  rw [Meets, Meets]
  cases m s with
  | ok r => exact fun h => ⟨h, rfl⟩
  | error e => exact id

@[simp]
theorem meets_pure {a : α} : Meets (pure a : Prog σ ε α) s Q E ↔ Q a s := Iff.rfl

@[simp]
theorem meets_bind : Meets (m >>= f) s S E ↔ Meets m s (fun a s' => Meets (f a) s' S E) E := by
  rw [Meets, Meets]
  show Ends S E (Except.bind (m s) fun r => f r.1 r.2) ↔ _
  cases m s with
  | ok r => exact Iff.rfl
  | error e => exact Iff.rfl

theorem Meets.bind (h : Meets m s Q E) (hf : ∀ a s', Q a s' → Meets (f a) s' S E) :
    Meets (m >>= f) s S E :=
  meets_bind.mpr (h.post hf)

@[simp]
theorem meets_get {Q : σ → σ → Prop} : Meets (get : Prog σ ε σ) s Q E ↔ Q s s := Iff.rfl

@[simp]
theorem meets_modify {g : σ → σ} {Q : PUnit → σ → Prop} :
    Meets (modify g : Prog σ ε PUnit) s Q E ↔ Q PUnit.unit (g s) := Iff.rfl

@[simp]
theorem meets_throw {e : ε} : Meets (throw e : Prog σ ε α) s Q E ↔ E e := Iff.rfl

/-- A program that can only end in one way. -/
theorem Meets.eq_ok {b : α} {t : σ} (h : Meets m s (fun a s' => a = b ∧ s' = t) fun _ => False) :
    m s = .ok (b, t) := by
  revert h
  rw [Meets]
  cases m s with
  | ok r =>
    rintro ⟨hb, ht⟩
    rw [← hb, ← ht]
  | error e => exact False.elim

/-- What is done before is left out. -/
theorem bind_eq_of_ok {a : α} {t : σ} (h : m s = .ok (a, t)) : (m >>= f) s = f a t := by
  show (Except.bind (m s) fun r => f r.1 r.2) = f a t
  rw [h]
  rfl

theorem meets_forM_cons {g : ι → Prog σ ε PUnit} {x : ι} {xs : List ι} {Q : PUnit → σ → Prop} :
    Meets ((x :: xs).forM g) s Q E ↔ Meets (g x) s (fun _ t => Meets (xs.forM g) t Q E) E :=
  meets_bind

/-- A loop keeps what every turn keeps. -/
theorem Meets.forM {g : ι → Prog σ ε PUnit} {Inv : σ → Prop} {xs : List ι}
    (h : ∀ x ∈ xs, ∀ t, Inv t → Meets (g x) t (fun _ t' => Inv t') E) (hs : Inv s) :
    Meets (xs.forM g) s (fun _ s' => Inv s') E := by
  induction xs generalizing s with
  | nil => exact hs
  | cons x xs ih =>
    refine Meets.bind (h x List.mem_cons_self s hs) fun _ t ht => ?_
    exact ih (fun y hy => h y (List.mem_cons_of_mem x hy)) ht

end Rules

/-! ## Invariants -/

/-- `m` keeps `Inv`, or stops with a fault in `E`. -/
def Preserves (Inv : σ → Prop) (E : ε → Prop) (m : Prog σ ε α) : Prop :=
  ∀ s, Inv s → Meets m s (fun _ s' => Inv s') E

section Preserves

variable {m : Prog σ ε α} {f : α → Prog σ ε β} {Inv : σ → Prop} {E : ε → Prop}

theorem preserves_pure (a : α) : Preserves Inv E (pure a : Prog σ ε α) := fun _ hs => hs

theorem preserves_throw {e : ε} (he : E e) : Preserves Inv E (throw e : Prog σ ε α) := fun _ _ => he

theorem preserves_get : Preserves Inv E (get : Prog σ ε σ) := fun _ hs => hs

theorem preserves_modify {g : σ → σ} (hg : ∀ s, Inv s → Inv (g s)) :
    Preserves Inv E (modify g : Prog σ ε PUnit) := fun s hs => hg s hs

theorem Preserves.bind (h : Preserves Inv E m) (hf : ∀ a, Preserves Inv E (f a)) : Preserves Inv E (m >>= f) :=
  fun s hs => (h s hs).bind fun a t ht => hf a t ht

theorem Preserves.forM {g : ι → Prog σ ε PUnit} {xs : List ι} (h : ∀ x ∈ xs, Preserves Inv E (g x)) :
    Preserves Inv E (xs.forM g) := fun _ hs => Meets.forM (fun x hx t ht => h x hx t ht) hs

end Preserves

/-! ## Runs -/

/-- The state after a program, without its result. -/
def after (m : Prog σ ε α) (s : σ) : Except ε σ := (m s).map Prod.snd

theorem Meets.after_ok {m : Prog σ ε α} {s s' : σ} {Q : α → σ → Prop} {E : ε → Prop}
    (h : Meets m s Q E) (hs : after m s = .ok s') : ∃ a, Q a s' := by
  revert h hs
  rw [Meets, after]
  cases m s with
  | ok r =>
    intro h hs
    cases hs
    exact ⟨r.1, h⟩
  | error e => nofun

theorem Meets.after_error {m : Prog σ ε α} {s : σ} {Q : α → σ → Prop} {E : ε → Prop} {e : ε}
    (h : Meets m s Q E) (hs : after m s = .error e) : E e := by
  revert h hs
  rw [Meets, after]
  cases m s with
  | ok r => nofun
  | error e' =>
    intro h hs
    cases hs
    exact h

/-- A result that is there is found by evaluation. -/
theorem exists_ok {x : Except ε α} {p : α → Bool} (h : x.toOption.any p = true) :
    ∃ a, x = .ok a ∧ p a = true := by
  cases x with
  | ok a => exact ⟨a, rfl, h⟩
  | error e => cases h

/-- One event after the other; a fault ends the run. -/
def runAll (step : σ → ι → Except ε σ) : σ → List ι → Except ε σ
  | s, [] => .ok s
  | s, e :: es => (step s e).bind fun s' => runAll step s' es

/-- Every step that a run takes meets `P`. -/
def Along (step : σ → ι → Except ε σ) (P : σ → ι → Prop) : σ → List ι → Prop
  | _, [] => True
  | s, e :: es => P s e ∧ ∀ s', step s e = .ok s' → Along step P s' es

/-- A run can be checked, step by step. -/
instance Along.decidable (step : σ → ι → Except ε σ) (P : σ → ι → Prop)
    [∀ s e, Decidable (P s e)] : ∀ s es, Decidable (Along step P s es)
  | _, [] => isTrue trivial
  | s, e :: es =>
    have _ : Decidable (∀ s', step s e = .ok s' → Along step P s' es) :=
      match step s e with
      | .error _ => isTrue nofun
      | .ok t =>
        have := Along.decidable step P t es
        decidable_of_iff (Along step P t es)
          ⟨fun h _ hs => Except.ok.inj hs ▸ h, fun h => h t rfl⟩
    inferInstanceAs (Decidable (P s e ∧ ∀ s', step s e = .ok s' → Along step P s' es))

section Runs

variable {step : σ → ι → Except ε σ} {P : σ → ι → Prop} {Inv : σ → Prop} {s s' : σ} {es : List ι}

theorem Along.mono {R : σ → ι → Prop} (h : Along step P s es) (hR : ∀ s e, P s e → R s e) :
    Along step R s es := by
  induction es generalizing s with
  | nil => trivial
  | cons e es ih => exact ⟨hR s e h.1, fun s' hs => ih (h.2 s' hs)⟩

theorem Along.of_forall (h : ∀ s e, P s e) : Along step P s es := by
  induction es generalizing s with
  | nil => trivial
  | cons e es ih => exact ⟨h s e, fun _ _ => ih⟩

theorem Along.of_mem (h : ∀ s, ∀ e ∈ es, P s e) : Along step P s es := by
  induction es generalizing s with
  | nil => trivial
  | cons e es ih =>
    exact ⟨h s e List.mem_cons_self, fun _ _ => ih fun t e' he => h t e' (List.mem_cons_of_mem e he)⟩

/-- What every step keeps, a run keeps. -/
theorem Along.inv (hstep : ∀ s e s', Inv s → P s e → step s e = .ok s' → Inv s')
    (h : Along step P s es) (hs : Inv s) (hrun : runAll step s es = .ok s') : Inv s' := by
  induction es generalizing s with
  | nil =>
    cases hrun
    exact hs
  | cons e es ih =>
    rw [runAll] at hrun
    cases hnext : step s e with
    | error f =>
      rw [hnext] at hrun
      cases hrun
    | ok t =>
      rw [hnext] at hrun
      exact ih (h.2 t hnext) (hstep s e t hs h.1 hnext) hrun

/-- What an invariant says of every step, it says of all steps of a run. -/
theorem Along.imp {R : σ → ι → Prop}
    (hstep : ∀ s e s', Inv s → P s e → step s e = .ok s' → Inv s')
    (himp : ∀ s e, Inv s → P s e → R s e) (h : Along step P s es) (hs : Inv s) :
    Along step R s es := by
  induction es generalizing s with
  | nil => trivial
  | cons e es ih => exact ⟨himp s e hs h.1, fun t ht => ih (h.2 t ht) (hstep s e t hs h.1 ht)⟩

/-- The fault of a run is the fault of a step from a state with the invariant. -/
theorem Along.fault {f : ε} (hstep : ∀ s e s', Inv s → P s e → step s e = .ok s' → Inv s')
    (h : Along step P s es) (hs : Inv s) (hrun : runAll step s es = .error f) :
    ∃ t e, Inv t ∧ P t e ∧ step t e = .error f := by
  induction es generalizing s with
  | nil => cases hrun
  | cons e es ih =>
    rw [runAll] at hrun
    cases hnext : step s e with
    | error g =>
      rw [hnext] at hrun
      cases hrun
      exact ⟨s, e, hs, h.1, hnext⟩
    | ok t =>
      rw [hnext] at hrun
      exact ih (h.2 t hnext) (hstep s e t hs h.1 hnext) hrun

end Runs

end IDeviceStack.Lib
