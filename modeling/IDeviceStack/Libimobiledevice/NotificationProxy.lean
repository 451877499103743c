/-
# `Libimobiledevice.NotificationProxy` — the notification callback

`notification_proxy.c`: a client, the calls of the application and the notifiers, the threads
that `np_set_notify_callback` starts and joins.  A state has the place of every thread; a step
is one statement of one thread, a use of what the threads share at a time.

* Any number of threads of the application make calls; `callers` has the place of each.  The
  threads that ran as notifiers are in `notifiers`, in the order they were started.
* A statement that has to wait, for the mutex, a thread or a message, is `blocked`; the use of a
  client that was freed is `freed`.  `pthread_join` of no thread returns at once.
* `answer` is what the connection says to a receive or a send, a `property_list_service_error_t`,
  and what `thread_new` returns.  `malloc` gives memory.
* A callback and its user data are a number.  While it runs it may make calls of the library: such
  a call is made like one of the application, and the notifier waits for its end.
* `installed`, `sent`, `received` and `calls` are not in the source: the callback that
  was set last, what the device sent, the relayed notifications that a notifier received with
  the callback that was installed then, and the calls that notifiers made.

**Proved here.**  `runs_deliver`.
-/
import Mathlib.Logic.Function.Basic
import IDeviceStack.Lib.Fault
import IDeviceStack.Libimobiledevice.Lockdown

namespace IDeviceStack.Libimobiledevice.Np

open Lib Libplist.Xplist Function List Option

/-! ## Messages -/

/-- A function and its user data. -/
abbrev Callback := Nat

abbrev Text := List UInt8

/-- What `np_get_notification` comes to.  `relay` is not in the source: a notification of the
device was received. -/
structure Verdict where
  res : Int
  notification : Option Text
  relay : Bool
  deriving DecidableEq, Repr

/-- The string under `Command`. -/
def commandOf (dict : Dict) : Option Text := (dict.getItem "Command").bind stringVal

/-- The string under `Name`. -/
def nameOf (dict : Dict) : Option Text := (dict.getItem "Name").bind stringVal

/-- The notification that a message relays, empty if it names none. -/
def relayed (dict : Dict) : Option Text :=
  if commandOf dict = some (lit "RelayNotification") then some ((nameOf dict).getD []) else none

/-- `np_get_notification` of a message. -/
def parseMessage (dict : Dict) : Verdict :=
  match commandOf dict with
  | none => ⟨-2, none, false⟩
  | some cmdValue =>
    if cmdValue = lit "RelayNotification" then
      match nameOf dict with
      | none => ⟨-2, none, true⟩
      | some nameValue => ⟨0, some nameValue, true⟩
    else ⟨-1, none, false⟩

/-- `np_get_notification` without a message. -/
def parseError (perr : Int) : Verdict := ⟨if perr = -5 then 0 else perr, none, false⟩

/-! ## Threads -/

/-- The next statement of a notifier. -/
inductive NotifierPc where
  /-- `while (npt->client->parent)`. -/
  | loop
  /-- `!client->parent` in `np_get_notification`. -/
  | check
  | lock
  | receive
  /-- In the receive, with the parent it was called with. -/
  | receiving (parent : Bool)
  | unlock (v : Verdict)
  /-- The call of the callback, if there is one. -/
  | report (v : Verdict)
  /-- In the callback, which makes the call of the library that is at `callers t`. -/
  | calling (v : Verdict) (t : Nat)
  | sleep
  | ended
  deriving DecidableEq, Repr

/-- The statement reads or writes the client. -/
def NotifierPc.usesClient : NotifierPc → Bool
  | .report _ | .calling _ _ | .sleep | .ended => false
  | _ => true

/-- A thread of `np_notifier`, with `npt->cbfunc`. -/
structure Notifier where
  cbfunc : Callback
  pc : NotifierPc
  deriving DecidableEq, Repr

/-- The next statement of a thread of the application, with the arguments and the variables of
the call. -/
inductive CallerPc where
  | idle
  | postLock (notification : Text)
  | postSend (notification : Text)
  | postUnlock
  | setLock (cb : Option Callback)
  | setTest (cb : Option Callback)
  | setSave (cb : Option Callback)
  | setClear (cb : Option Callback) (parent : Bool)
  /-- `client->notifier` is read for `thread_join`. -/
  | setJoin (cb : Option Callback) (parent : Bool)
  | setJoining (cb : Option Callback) (parent : Bool) (thread : Option Nat)
  | setForget (cb : Option Callback) (parent : Bool)
  | setRestore (cb : Option Callback) (parent : Bool)
  | setCreate (cb : Option Callback)
  /-- `thread_new` stores the thread it made. -/
  | setStore (thread : Nat)
  | setUnlock
  | freeShutdown
  | freeSave
  | freeClear (parent : Bool)
  | freeTest (parent : Bool)
  | freeJoin (parent : Bool)
  | freeJoining (parent : Bool) (thread : Option Nat)
  | freeForget
  | freeReceive (parent : Bool)
  | freeRelease
  deriving DecidableEq, Repr

/-- The thread that a call waits for. -/
def CallerPc.joins : CallerPc → Option Nat
  | .setJoining _ _ thread => thread
  | .freeJoining _ thread => thread
  | _ => none

inductive Thread where
  | caller (t : Nat)
  | notifier (i : Nat)
  deriving DecidableEq, Repr

/-- A call of a callback. -/
structure Call where
  cbfunc : Callback
  notification : Text
  relay : Bool
  deriving DecidableEq, Repr

/-- What the notifier does with the verdict: `cbfunc("")`, `cbfunc(notification)` or nothing. -/
def Verdict.call (cbfunc : Callback) (v : Verdict) : Option Call :=
  if v.res < 0 then some ⟨cbfunc, [], v.relay⟩
  else v.notification.map fun notification => ⟨cbfunc, notification, v.relay⟩

/-! ## The client and its surroundings -/

structure NpState where
  /-- `free(client)` was done. -/
  freed : Bool := false
  /-- `client->parent` is there. -/
  parent : Bool := true
  mutex : Option Thread := none
  notifier : Option Nat := none
  callers : Nat → CallerPc := fun _ => .idle
  notifiers : List Notifier := []
  /-- What the device sent and nobody has received. -/
  wire : List Dict := []
  /-- What was sent to the device. -/
  requests : List Dict := []
  installed : Option Callback := none
  sent : List Dict := []
  received : List (Option Callback × Text) := []
  calls : List Call := []

/-- `np_client_new`. -/
def NpState.new : NpState := {}

inductive Stop where
  | blocked
  | freed
  deriving DecidableEq, Repr

inductive Operation where
  | post (notification : Text)
  | set (cb : Option Callback)
  | free
  deriving DecidableEq, Repr

inductive Event where
  /-- The device sends a message. -/
  | device (dict : Dict)
  /-- A thread of the application makes a call. -/
  | call (t : Nat) (op : Operation)
  /-- The next statement of a call. -/
  | caller (t : Nat) (answer : Int)
  /-- The next statement of a notifier. -/
  | notifier (i : Nat) (answer : Int)
  /-- A callback makes a call of the library. -/
  | callback (i t : Nat) (op : Operation)

namespace NpState

/-- A thread of the application goes on. -/
def goto (s : NpState) (t : Nat) (pc : CallerPc) : NpState :=
  { s with callers := update s.callers t pc }

/-- A notifier goes on. -/
def turn (s : NpState) (i : Nat) (n : Notifier) (pc : NotifierPc) : NpState :=
  { s with notifiers := s.notifiers.set i ⟨n.cbfunc, pc⟩ }

/-- `np_lock`. -/
def lock (s : NpState) (thread : Thread) : Except Stop NpState :=
  match s.mutex with
  | none => .ok { s with mutex := some thread }
  | some _ => .error .blocked

/-- `np_unlock`. -/
def unlock (s : NpState) : NpState := { s with mutex := none }

/-- The thread has ended, or there is none. -/
def Ended (s : NpState) (thread : Option Nat) : Prop :=
  ∀ i ∈ thread, ∀ n ∈ s.notifiers[i]?, n.pc = .ended

instance (s : NpState) (thread : Option Nat) : Decidable (s.Ended thread) :=
  inferInstanceAs (Decidable (∀ i ∈ thread, ∀ n ∈ s.notifiers[i]?, n.pc = .ended))

/-- `property_list_service_send_xml_plist` with `client->parent`. -/
def send (s : NpState) (dict : Dict) (answer : Int) : NpState :=
  if s.parent ∧ answer = 0 then { s with requests := s.requests ++ [dict] } else s

end NpState

def shutdownRequest : Dict := Dict.setItem [] "Command" (newString (lit "Shutdown"))

def postRequest (notification : Text) : Dict :=
  (Dict.setItem [] "Command" (newString (lit "PostNotification"))).setItem "Name"
    (newString notification)

/-! ## Steps -/

/-- The first statement of a call. -/
def Operation.start : Operation → CallerPc
  | .post notification => .postLock notification
  | .set cb => .setLock cb
  | .free => .freeShutdown

/-- One statement of `np_post_notification`, `np_set_notify_callback` or `np_client_free`. -/
def callerStep (s : NpState) (t : Nat) (answer : Int) : CallerPc → Except Stop NpState
  | .idle => .error .blocked
  -- `np_post_notification`
  | .postLock notification => (s.lock (.caller t)).map (·.goto t (.postSend notification))
  | .postSend notification => .ok ((s.send (postRequest notification) answer).goto t .postUnlock)
  | .postUnlock => .ok (s.unlock.goto t .idle)
  -- `np_set_notify_callback`
  | .setLock cb => (s.lock (.caller t)).map (·.goto t (.setTest cb))
  | .setTest cb => .ok (s.goto t (if s.notifier.isSome then .setSave cb else .setCreate cb))
  | .setSave cb => .ok (s.goto t (.setClear cb s.parent))
  | .setClear cb parent => .ok ({ s with parent := false }.goto t (.setJoin cb parent))
  | .setJoin cb parent => .ok (s.goto t (.setJoining cb parent s.notifier))
  | .setJoining cb parent thread =>
    if s.Ended thread then .ok (s.goto t (.setForget cb parent)) else .error .blocked
  | .setForget cb parent =>
    .ok ({ s with notifier := none, installed := none }.goto t (.setRestore cb parent))
  | .setRestore cb parent => .ok ({ s with parent := parent }.goto t (.setCreate cb))
  | .setCreate cb =>
    match cb with
    | none => .ok (s.goto t .setUnlock)
    | some cbfunc =>
      if answer = 0 then
        let n : Notifier := ⟨cbfunc, .loop⟩
        .ok ({ s with notifiers := s.notifiers ++ [n], installed := cb }.goto t
          (.setStore s.notifiers.length))
      else .ok (s.goto t .setUnlock)
  | .setStore thread => .ok ({ s with notifier := some thread }.goto t .setUnlock)
  | .setUnlock => .ok (s.unlock.goto t .idle)
  -- `np_client_free`, without the mutex
  | .freeShutdown => .ok ((s.send shutdownRequest answer).goto t .freeSave)
  | .freeSave => .ok (s.goto t (.freeClear s.parent))
  | .freeClear parent => .ok ({ s with parent := false }.goto t (.freeTest parent))
  | .freeTest parent =>
    .ok (s.goto t (if s.notifier.isSome then .freeJoin parent else .freeReceive parent))
  | .freeJoin parent => .ok (s.goto t (.freeJoining parent s.notifier))
  | .freeJoining _ thread =>
    if s.Ended thread then .ok (s.goto t .freeForget) else .error .blocked
  | .freeForget => .ok ({ s with notifier := none }.goto t .freeRelease)
  | .freeReceive parent =>
    if parent ∧ answer = 0 then
      match s.wire with
      | [] => .error .blocked
      | _ :: rest => .ok ({ s with wire := rest }.goto t .freeRelease)
    else .ok (s.goto t .freeRelease)
  | .freeRelease => .ok ({ s with freed := true }.goto t .idle)

/-- One statement of `np_notifier`. -/
def notifierStep (s : NpState) (i : Nat) (n : Notifier) (answer : Int) : Except Stop NpState :=
  match n.pc with
  | .loop => .ok (s.turn i n (if s.parent then .check else .ended))
  | .check => .ok (s.turn i n (if s.parent then .lock else .report ⟨-1, none, false⟩))
  | .lock => (s.lock (.notifier i)).map (·.turn i n .receive)
  | .receive => .ok (s.turn i n (.receiving s.parent))
  | .receiving parent =>
    if parent = false then .ok (s.turn i n (.unlock (parseError (-1))))
    else if answer = 0 then
      match s.wire with
      | [] => .error .blocked
      | dict :: rest =>
        let news := (relayed dict).toList.map fun name => (s.installed, name)
        .ok ({ s with wire := rest, received := s.received ++ news }.turn i n
          (.unlock (parseMessage dict)))
    else .ok (s.turn i n (.unlock (parseError answer)))
  | .unlock v => .ok (s.unlock.turn i n (.report v))
  | .report v =>
    .ok ({ s with calls := s.calls ++ (v.call n.cbfunc).toList }.turn i n
      (if v.res < 0 then .ended else .sleep))
  | .calling v t => if s.callers t = .idle then .ok (s.turn i n (.report v)) else .error .blocked
  | .sleep => .ok (s.turn i n .loop)
  | .ended => .error .blocked

/-- One step of the whole. -/
def step (s : NpState) : Event → Except Stop NpState
  | .device dict => .ok { s with wire := s.wire ++ [dict], sent := s.sent ++ [dict] }
  | .call t op => if s.callers t = .idle then .ok (s.goto t op.start) else .error .blocked
  | .caller t answer => if s.freed then .error .freed else callerStep s t answer (s.callers t)
  | .notifier i answer =>
    match s.notifiers[i]? with
    | none => .error .blocked
    | some n =>
      if s.freed ∧ n.pc.usesClient then .error .freed else notifierStep s i n answer
  | .callback i t op =>
    match s.notifiers[i]? with
    | some ⟨cbfunc, .report v⟩ =>
      if (v.call cbfunc).isSome ∧ s.callers t = .idle then
        .ok ((s.goto t op.start).turn i ⟨cbfunc, .report v⟩ (.calling v t))
      else .error .blocked
    | _ => .error .blocked

/-! ## Hanging, and passing on -/

/-- What a call of a callback passes on, as it is in `received`. -/
def Call.entry (c : Call) : Option Callback × Text := (some c.cbfunc, c.notification)

/-- The notifications of the device among some calls. -/
def passedOn (calls : List Call) : List (Option Callback × Text) :=
  (calls.filter Call.relay).map Call.entry

/-- What a notifier has received and not yet passed on. -/
def Notifier.inHand (n : Notifier) : List (Option Callback × Text) :=
  match n.pc with
  | .unlock v | .report v | .calling v _ => passedOn (v.call n.cbfunc).toList
  | _ => []

/-- The call is at `np_lock`. -/
def CallerPc.waits : CallerPc → Bool
  | .postLock _ | .setLock _ => true
  | _ => false

namespace NpState

/-- The notifier is at `np_lock`, in `np_get_notification` or in a call that its callback makes. -/
def Waits (s : NpState) (n : Notifier) : Prop :=
  n.pc = .lock ∨ ∃ v t, n.pc = .calling v t ∧ (s.callers t).waits = true

/-- A thread waits for a notifier that waits for the mutex of that thread. -/
def Hangs (s : NpState) : Prop :=
  ∃ t i n, (s.callers t).joins = some i ∧ s.mutex = some (.caller t) ∧
    s.notifiers[i]? = some n ∧ s.Waits n

def inHand (s : NpState) : List (Option Callback × Text) := s.notifiers.flatMap Notifier.inHand

/-- What was received was passed on to the callback that was installed then, once and in
order; one notification at most is still on its way.  Nothing was received that was not sent. -/
structure Delivered (s : NpState) : Prop where
  once : s.received = passedOn s.calls ++ s.inHand
  pending : s.inHand.length ≤ 1
  inOrder : ∃ taken, s.sent = taken ++ s.wire ∧
    (s.received.map Prod.snd).Sublist (taken.filterMap relayed)

end NpState

/-- The thread that makes a statement of a call. -/
def Event.thread : Event → Option Nat
  | .caller t _ => some t
  | _ => none

/-- The statement clears `client->parent`. -/
def CallerPc.clears : CallerPc → Bool
  | .setClear _ _ => true
  | _ => false

def Event.inCallback : Event → Bool
  | .callback _ _ _ => true
  | _ => false

/-- The step is not one of these three: a callback makes a call of the library; a setter clears
`client->parent` while the notifier is between its look at it and the lock; `np_client_free` forgets
a notifier that has not ended. -/
def Careful (s : NpState) (e : Event) : Prop :=
  e.inCallback = false ∧ ∀ t ∈ e.thread,
    ((s.callers t).clears = true → ∀ i ∈ s.notifier, ∀ n ∈ s.notifiers[i]?, n.pc ≠ .lock) ∧
    (s.callers t = .freeForget → s.Ended s.notifier)

instance (s : NpState) (e : Event) : Decidable (Careful s e) :=
  inferInstanceAs (Decidable (_ ∧ ∀ t ∈ e.thread,
    ((s.callers t).clears = true → ∀ i ∈ s.notifier, ∀ n ∈ s.notifiers[i]?, n.pc ≠ .lock) ∧
    (s.callers t = .freeForget → s.Ended s.notifier)))

/-! ## The invariant -/

/-- The thread is between `np_lock` and `np_unlock`. -/
def CallerPc.locked : CallerPc → Bool
  | .postSend _ | .postUnlock | .setTest _ | .setSave _ | .setClear _ _ | .setJoin _ _
  | .setJoining _ _ _ | .setForget _ _ | .setRestore _ _ | .setCreate _ | .setStore _
  | .setUnlock => true
  | _ => false

def NotifierPc.locked : NotifierPc → Bool
  | .receive | .receiving _ | .unlock _ => true
  | _ => false

def NotifierPc.calls : NotifierPc → Bool
  | .calling _ _ => true
  | _ => false

/-- Every notifier has ended, but for `thread`. -/
def Only (notifiers : List Notifier) (thread : Option Nat) : Prop :=
  ∀ i n, notifiers[i]? = some n → n.pc ≠ .ended → thread = some i

/-- No notifier is at the lock. -/
def NoneWaits (notifiers : List Notifier) : Prop :=
  ∀ (i : Nat) n, notifiers[i]? = some n → n.pc ≠ .lock

/-- What a setter knows of the notifiers. -/
def Knows (parent : Bool) (notifiers : List Notifier) : CallerPc → Prop
  | .setJoin _ _ => parent = false ∧ NoneWaits notifiers
  | .setJoining _ _ thread => parent = false ∧ NoneWaits notifiers ∧ Only notifiers thread
  | .setForget _ _ => Only notifiers none
  | .setRestore _ _ => Only notifiers none
  | .setCreate _ => Only notifiers none
  | .setStore thread => Only notifiers (some thread)
  | _ => True

theorem knows_of_not_locked {parent : Bool} {notifiers : List Notifier} {pc : CallerPc}
    (h : pc.locked = false) : Knows parent notifiers pc := by
  cases pc with
  | setJoin | setJoining | setForget | setRestore | setCreate | setStore => cases h
  | _ => trivial

theorem Knows.clear {parent parent' : Bool} {notifiers : List Notifier} {pc : CallerPc}
    (h : Knows parent notifiers pc) (hp : parent = false → parent' = false) :
    Knows parent' notifiers pc := by
  cases pc with
  | setJoin => exact ⟨hp h.1, h.2⟩
  | setJoining => exact ⟨hp h.1, h.2⟩
  | _ => exact h

structure Consistent (s : NpState) : Prop where
  callers : ∀ t, s.mutex = some (.caller t) ↔ (s.callers t).locked = true
  notifiers : ∀ (i : Nat) (n : Notifier), s.notifiers[i]? = some n →
    (s.mutex = some (.notifier i) ↔ n.pc.locked = true)
  /-- A notifier that has not ended is the one of the client, or will be. -/
  named : ∀ (i : Nat) (n : Notifier), s.notifiers[i]? = some n → n.pc ≠ .ended →
    s.notifier = some i ∨ ∃ t, s.callers t = .setStore i
  installed : ∀ (i : Nat) (n : Notifier), s.notifiers[i]? = some n → n.pc ≠ .ended →
    s.installed = some n.cbfunc
  known : ∀ t, Knows s.parent s.notifiers (s.callers t)
  /-- No callback makes a call. -/
  quiet : ∀ (i : Nat) (n : Notifier), s.notifiers[i]? = some n → n.pc.calls = false
  once : s.received = passedOn s.calls ++ s.inHand
  inOrder : ∃ taken, s.sent = taken ++ s.wire ∧
    (s.received.map Prod.snd).Sublist (taken.filterMap relayed)

theorem Consistent.new : Consistent NpState.new where
  callers _ := ⟨nofun, nofun⟩
  notifiers _ _ := nofun
  named _ _ := nofun
  installed _ _ := nofun
  known _ := trivial
  quiet _ _ := nofun
  once := rfl
  inOrder := ⟨[], rfl, List.Sublist.refl _⟩

section Invariant

variable {s : NpState} {i j t : Nat} {n m : Notifier}

theorem Consistent.eq_of_locked (hi : Consistent s) {u : Nat} (ht : (s.callers t).locked = true)
    (hu : (s.callers u).locked = true) : t = u := by
  have hmt := (hi.callers t).mpr ht
  rw [(hi.callers u).mpr hu] at hmt
  cases hmt
  rfl

theorem Consistent.only_notifier (hi : Consistent s) (ht : (s.callers t).locked = true)
    (hpc : ∀ i, s.callers t ≠ .setStore i) : Only s.notifiers s.notifier := by
  intro i n hn hlive
  rcases hi.named i n hn hlive with h | ⟨u, hu⟩
  · exact h
  · have : t = u := hi.eq_of_locked ht (by rw [hu]; rfl)
    subst this
    exact absurd hu (hpc i)

theorem Consistent.unique (hi : Consistent s) (hn : s.notifiers[i]? = some n)
    (hlive : n.pc ≠ .ended) (hm : s.notifiers[j]? = some m) (hlive' : m.pc ≠ .ended) : i = j := by
  rcases hi.named i n hn hlive with h | ⟨t, ht⟩
  · rcases hi.named j m hm hlive' with h' | ⟨u, hu⟩
    · rw [h] at h'
      exact some.inj h'
    · have hk := hi.known u
      rw [hu] at hk
      exact (some.inj (hk i n hn hlive)).symm
  · have hk := hi.known t
    rw [ht] at hk
    exact some.inj (hk j m hm hlive')

theorem Notifier.inHand_ended (hpc : n.pc = .ended) : n.inHand = [] := by
  rw [Notifier.inHand, hpc]

theorem inHand_eq {l : List Notifier} (hn : l[i]? = some n)
    (hothers : ∀ j m, l[j]? = some m → j ≠ i → m.pc = .ended) :
    l.flatMap Notifier.inHand = n.inHand := by
  induction l generalizing i with
  | nil => cases hn
  | cons m l ih =>
    rw [flatMap_cons]
    cases i with
    | zero =>
      cases hn
      have hrest : l.flatMap Notifier.inHand = [] := by
        rw [flatMap_eq_nil_iff]
        intro m hm
        obtain ⟨j, hj⟩ := mem_iff_getElem?.mp hm
        exact Notifier.inHand_ended (hothers (j + 1) m hj (Nat.succ_ne_zero j))
      rw [hrest, append_nil]
    | succ i =>
      rw [Notifier.inHand_ended (hothers 0 m rfl (Nat.succ_ne_zero i).symm), nil_append]
      exact ih hn fun j m hm hj => hothers (j + 1) m hm fun h => hj (Nat.succ.inj h)

theorem Consistent.others_ended (hi : Consistent s) (hn : s.notifiers[i]? = some n)
    (hlive : n.pc ≠ .ended) : ∀ j m, s.notifiers[j]? = some m → j ≠ i → m.pc = .ended := by
  intro j m hm hj
  by_contra hlive'
  exact hj (hi.unique hm hlive' hn hlive)

theorem Consistent.inHand_eq (hi : Consistent s) (hn : s.notifiers[i]? = some n)
    (hlive : n.pc ≠ .ended) : s.inHand = n.inHand :=
  Np.inHand_eq hn (hi.others_ended hn hlive)

variable {s' : NpState} {pc : CallerPc}

theorem Consistent.move (hi : Consistent s)
    (hcallers : s'.callers = update s.callers t pc)
    (hnotifiers : s'.notifiers = s.notifiers)
    (hlogs : s'.received = s.received ∧ s'.calls = s.calls ∧ s'.sent = s.sent)
    (hwire : ∃ taken, s.wire = taken ++ s'.wire)
    (hmine : s'.mutex = some (.caller t) ↔ pc.locked = true)
    (hothers : ∀ thread, thread ≠ .caller t → (s'.mutex = some thread ↔ s.mutex = some thread))
    (hnamed : ∀ (i : Nat) (n : Notifier), s.notifiers[i]? = some n → n.pc ≠ .ended →
      s'.notifier = some i ∨ ∃ u, s'.callers u = .setStore i)
    (hinstalled : ∀ (i : Nat) (n : Notifier), s.notifiers[i]? = some n → n.pc ≠ .ended →
      s'.installed = some n.cbfunc)
    (hparent : (s.callers t).locked = true ∨ (s.parent = false → s'.parent = false))
    (hknows : Knows s'.parent s.notifiers pc) : Consistent s' := by
  obtain ⟨hreceived, hcalls, hsent⟩ := hlogs
  have hself : s'.callers t = pc := by rw [hcallers, update_self]
  have hrest : ∀ u, u ≠ t → s'.callers u = s.callers u := by
    intro u hu
    rw [hcallers, update_of_ne hu]
  refine ⟨fun u => ?_, fun i n hn => ?_, ?_, ?_, fun u => ?_, ?_, ?_, ?_⟩
  · by_cases hu : u = t
    · subst hu
      rw [hself]
      exact hmine
    · rw [hrest u hu, hothers _ fun h => hu (Thread.caller.inj h)]
      exact hi.callers u
  · rw [hnotifiers] at hn
    rw [hothers (.notifier i) nofun]
    exact hi.notifiers i n hn
  · rw [hnotifiers]
    exact hnamed
  · rw [hnotifiers]
    exact hinstalled
  · rw [hnotifiers]
    by_cases hu : u = t
    · subst hu
      rw [hself]
      exact hknows
    · rw [hrest u hu]
      rcases hparent with hlock | hp
      · have hfree : (s.callers u).locked = false := by
          by_contra hlock'
          exact hu (hi.eq_of_locked (Bool.of_not_eq_false hlock') hlock)
        exact knows_of_not_locked hfree
      · exact (hi.known u).clear hp
  · rw [hnotifiers]
    exact hi.quiet
  · rw [hreceived, hcalls, NpState.inHand, hnotifiers]
    exact hi.once
  · obtain ⟨taken, htaken, hsub⟩ := hi.inOrder
    obtain ⟨more, hmore⟩ := hwire
    refine ⟨taken ++ more, ?_, ?_⟩
    · rw [hsent, htaken, hmore, append_assoc]
    · rw [hreceived, filterMap_append]
      exact hsub.trans (sublist_append_left _ _)

theorem Consistent.named_goto (hi : Consistent s) (hcallers : s'.callers = update s.callers t pc)
    (hnotifier : s'.notifier = s.notifier) (hpc : ∀ i, s.callers t ≠ .setStore i)
    (hn : s.notifiers[i]? = some n) (hlive : n.pc ≠ .ended) :
    s'.notifier = some i ∨ ∃ u, s'.callers u = .setStore i := by
  rcases hi.named i n hn hlive with h | ⟨u, hu⟩
  · exact Or.inl (hnotifier.trans h)
  · refine Or.inr ⟨u, ?_⟩
    have hne : u ≠ t := by
      rintro rfl
      exact hpc i hu
    rw [hcallers, update_of_ne hne, hu]

theorem Consistent.turned {pc : NotifierPc} (hi : Consistent s)
    (hn : s.notifiers[i]? = some n) (hlive : n.pc ≠ .ended)
    (hnotifiers : s'.notifiers = s.notifiers.set i ⟨n.cbfunc, pc⟩)
    (hsame : s'.callers = s.callers ∧ s'.notifier = s.notifier ∧ s'.installed = s.installed ∧
      s'.parent = s.parent)
    (hmine : s'.mutex = some (.notifier i) ↔ pc.locked = true)
    (hothers : ∀ thread, thread ≠ .notifier i → (s'.mutex = some thread ↔ s.mutex = some thread))
    (hwait : pc = .lock → s.parent = true) (hquiet : pc.calls = false)
    (honce : s.received = passedOn s.calls ++ n.inHand →
      s'.received = passedOn s'.calls ++ Notifier.inHand ⟨n.cbfunc, pc⟩)
    (hinOrder : ∃ taken, s'.sent = taken ++ s'.wire ∧
      (s'.received.map Prod.snd).Sublist (taken.filterMap relayed)) : Consistent s' := by
  obtain ⟨hcallers, hnotifier, hinst, hparent⟩ := hsame
  have hlen : i < s.notifiers.length := (List.getElem?_eq_some_iff.mp hn).1
  have hself : s'.notifiers[i]? = some ⟨n.cbfunc, pc⟩ := by
    rw [hnotifiers, List.getElem?_set_self hlen]
  -- every other notifier is where it was
  have hcases : ∀ (j : Nat) (m : Notifier), s'.notifiers[j]? = some m →
      (j = i ∧ m = ⟨n.cbfunc, pc⟩) ∨ (j ≠ i ∧ s.notifiers[j]? = some m) := by
    intro j m hm
    by_cases hj : j = i
    · subst hj
      rw [hself] at hm
      exact Or.inl ⟨rfl, (some.inj hm).symm⟩
    · rw [hnotifiers, List.getElem?_set_ne (Ne.symm hj)] at hm
      exact Or.inr ⟨hj, hm⟩
  have hended := hi.others_ended hn hlive
  have honly : ∀ thread, Only s.notifiers thread → Only s'.notifiers thread := by
    intro thread ho j m hm hl
    rcases hcases j m hm with ⟨rfl, -⟩ | ⟨-, hm'⟩
    · exact ho j n hn hlive
    · exact ho j m hm' hl
  have hnone : s.parent = false → NoneWaits s.notifiers → NoneWaits s'.notifiers := by
    intro hp hw j m hm
    rcases hcases j m hm with ⟨-, rfl⟩ | ⟨-, hm'⟩
    · intro h
      rw [hwait h] at hp
      cases hp
    · exact hw j m hm'
  refine ⟨fun t => ?_, fun j m hm => ?_, fun j m hm hl => ?_, fun j m hm hl => ?_, fun t => ?_,
    fun j m hm => ?_, ?_, hinOrder⟩
  · rw [hcallers, hothers (.caller t) nofun]
    exact hi.callers t
  · rcases hcases j m hm with ⟨rfl, rfl⟩ | ⟨hj, hm'⟩
    · exact hmine
    · rw [hothers _ fun h => hj (Thread.notifier.inj h)]
      exact hi.notifiers j m hm'
  · rw [hnotifier, hcallers]
    rcases hcases j m hm with ⟨rfl, -⟩ | ⟨-, hm'⟩
    · exact hi.named j n hn hlive
    · exact hi.named j m hm' hl
  · rw [hinst]
    rcases hcases j m hm with ⟨rfl, rfl⟩ | ⟨-, hm'⟩
    · exact hi.installed j n hn hlive
    · exact hi.installed j m hm' hl
  · have hk := hi.known t
    rw [hcallers, hparent]
    cases hpc : s.callers t with
    | setJoin =>
      rw [hpc] at hk
      exact ⟨hk.1, hnone hk.1 hk.2⟩
    | setJoining =>
      rw [hpc] at hk
      exact ⟨hk.1, hnone hk.1 hk.2.1, honly _ hk.2.2⟩
    | setForget | setRestore | setCreate | setStore =>
      rw [hpc] at hk
      exact honly _ hk
    | _ => trivial
  · rcases hcases j m hm with ⟨-, rfl⟩ | ⟨-, hm'⟩
    · exact hquiet
    · exact hi.quiet j m hm'
  · have hhand : s'.inHand = Notifier.inHand ⟨n.cbfunc, pc⟩ := by
      refine Np.inHand_eq hself fun j m hm hj => ?_
      rcases hcases j m hm with ⟨h, -⟩ | ⟨-, hm'⟩
      · exact absurd h hj
      · exact hended j m hm' hj
    rw [hhand]
    refine honce ?_
    rw [← hi.inHand_eq hn hlive]
    exact hi.once

theorem Consistent.goto (hi : Consistent s) (pc : CallerPc)
    (hlocked : (s.callers t).locked = pc.locked) (hstore : ∀ i, s.callers t ≠ .setStore i)
    (freed parent : Bool) (requests wire : List Dict)
    (hparent : (s.callers t).locked = true ∨ (s.parent = false → parent = false))
    (hwire : ∃ taken, s.wire = taken ++ wire) (hknows : Knows parent s.notifiers pc) :
    Consistent ({ s with
      freed := freed, parent := parent, requests := requests, wire := wire }.goto t pc) := by
  refine hi.move rfl rfl ⟨rfl, rfl, rfl⟩ hwire ?_ (fun _ _ => Iff.rfl)
    (fun i n hn hlive => hi.named_goto rfl rfl hstore hn hlive) hi.installed hparent hknows
  rw [← hlocked]
  exact hi.callers t

theorem Consistent.goto_only (hi : Consistent s) (hlocked : (s.callers t).locked = pc.locked)
    (hstore : ∀ i, s.callers t ≠ .setStore i) (hknows : Knows s.parent s.notifiers pc) :
    Consistent (s.goto t pc) :=
  hi.goto pc hlocked hstore s.freed s.parent s.requests s.wire (Or.inr id) ⟨[], rfl⟩ hknows

variable {answer : Int}

theorem Consistent.send {dict : Dict} (hi : Consistent s)
    (hlocked : (s.callers t).locked = pc.locked) (hstore : ∀ i, s.callers t ≠ .setStore i)
    (hknows : Knows s.parent s.notifiers pc) : Consistent ((s.send dict answer).goto t pc) := by
  rw [NpState.send]
  split
  · exact hi.goto pc hlocked hstore s.freed s.parent (s.requests ++ [dict]) s.wire (Or.inr id)
      ⟨[], rfl⟩ hknows
  · exact hi.goto_only hlocked hstore hknows

theorem lock_eq_ok {thread : Thread} {f : NpState → NpState} (h : (s.lock thread).map f = .ok s') :
    s.mutex = none ∧ s' = f { s with mutex := some thread } := by
  rw [NpState.lock] at h
  cases hm : s.mutex with
  | some _ =>
    rw [hm] at h
    cases h
  | none =>
    rw [hm] at h
    exact ⟨rfl, (Except.ok.inj h).symm⟩

theorem Consistent.lock (hi : Consistent s) (hm : s.mutex = none) (hlocked : pc.locked = true)
    (hstore : ∀ i, s.callers t ≠ .setStore i) (hknows : Knows s.parent s.notifiers pc) :
    Consistent ({ s with mutex := some (.caller t) }.goto t pc) := by
  refine hi.move rfl rfl ⟨rfl, rfl, rfl⟩ ⟨[], rfl⟩ ⟨fun _ => hlocked, fun _ => rfl⟩ ?_
    (fun i n hn hlive => hi.named_goto rfl rfl hstore hn hlive) hi.installed (Or.inr id) hknows
  intro thread hne
  rw [hm]
  exact ⟨fun h => absurd (some.inj h).symm hne, nofun⟩

theorem Consistent.unlock (hi : Consistent s) (hlocked : (s.callers t).locked = true)
    (hpc : pc.locked = false) (hstore : ∀ i, s.callers t ≠ .setStore i) :
    Consistent (s.unlock.goto t pc) := by
  have hm := (hi.callers t).mpr hlocked
  refine hi.move rfl rfl ⟨rfl, rfl, rfl⟩ ⟨[], rfl⟩ ⟨nofun, ?_⟩ ?_
    (fun i n hn hlive => hi.named_goto rfl rfl hstore hn hlive) hi.installed (Or.inr id)
    (knows_of_not_locked hpc)
  · intro h
    rw [hpc] at h
    cases h
  · intro thread hne
    rw [hm]
    exact ⟨nofun, fun h => absurd (some.inj h).symm hne⟩

theorem Consistent.create {cb : Option Callback} {cbfunc : Callback} (hi : Consistent s)
    (hpc : s.callers t = .setCreate cb) :
    Consistent ({ s with
        notifiers := s.notifiers ++ [Notifier.mk cbfunc .loop], installed := some cbfunc }.goto t
      (.setStore s.notifiers.length)) := by
  have hlock : (s.callers t).locked = true := by rw [hpc]; rfl
  have hm := (hi.callers t).mpr hlock
  have honly : Only s.notifiers none := by
    have hk := hi.known t
    rw [hpc] at hk
    exact hk
  have hcases : ∀ (i : Nat) (n : Notifier),
      (s.notifiers ++ [Notifier.mk cbfunc .loop])[i]? = some n →
        s.notifiers[i]? = some n ∨ (i = s.notifiers.length ∧ n = ⟨cbfunc, .loop⟩) := by
    intro i n hn
    rcases Nat.lt_trichotomy i s.notifiers.length with h | h | h
    · rw [List.getElem?_append_left h] at hn
      exact Or.inl hn
    · rw [h, List.getElem?_concat_length] at hn
      exact Or.inr ⟨h, (some.inj hn).symm⟩
    · rw [List.getElem?_eq_none (by rw [length_append]; exact h)] at hn
      cases hn
  refine ⟨fun u => ?_, fun i n hn => ?_, fun i n hn hlive => ?_, fun i n hn hlive => ?_,
    fun u => ?_, fun i n hn => ?_, ?_, hi.inOrder⟩
  · by_cases hu : u = t
    · subst hu
      refine ⟨fun _ => ?_, fun _ => hm⟩
      show (update s.callers u _ u).locked = true
      rw [update_self]
      rfl
    · show s.mutex = some (.caller u) ↔ (update s.callers t _ u).locked = true
      rw [update_of_ne hu]
      exact hi.callers u
  · rcases hcases i n hn with hn' | ⟨-, rfl⟩
    · exact hi.notifiers i n hn'
    · show s.mutex = some (.notifier i) ↔ _
      rw [hm]
      exact ⟨nofun, nofun⟩
  · rcases hcases i n hn with hn' | ⟨rfl, -⟩
    · exact nomatch honly i n hn' hlive
    · refine Or.inr ⟨t, ?_⟩
      exact update_self ..
  · rcases hcases i n hn with hn' | ⟨-, rfl⟩
    · exact nomatch honly i n hn' hlive
    · rfl
  · show Knows s.parent _ (update s.callers t _ u)
    by_cases hu : u = t
    · subst hu
      rw [update_self]
      intro i n hn hlive
      rcases hcases i n hn with hn' | ⟨rfl, -⟩
      · exact nomatch honly i n hn' hlive
      · rfl
    · rw [update_of_ne hu]
      refine knows_of_not_locked ?_
      by_contra hlock'
      exact hu (hi.eq_of_locked (Bool.of_not_eq_false hlock') hlock)
  · rcases hcases i n hn with hn' | ⟨-, rfl⟩
    · exact hi.quiet i n hn'
    · rfl
  · show s.received = passedOn s.calls ++ (s.notifiers ++ [Notifier.mk cbfunc .loop]).flatMap _
    rw [flatMap_append, hi.once]
    exact congrArg _ (append_nil _).symm

theorem Consistent.knows (hi : Consistent s) (hpc : s.callers t = pc) :
    Knows s.parent s.notifiers pc := hpc ▸ hi.known t

theorem ended_only {thread : Option Nat} (ho : Only s.notifiers thread) (he : s.Ended thread) :
    Only s.notifiers none := by
  intro i n hn hlive
  exact absurd (he i (ho i n hn hlive) n hn) hlive

theorem Consistent.callerStep (hi : Consistent s) (hc : Careful s (.caller t answer))
    (h : callerStep s t answer (s.callers t) = .ok s') : Consistent s' := by
  have hne : ∀ {pc : CallerPc}, s.callers t = pc → (∀ i, pc ≠ .setStore i) →
      ∀ i, s.callers t ≠ .setStore i := fun hpc hs i hu => hs i (hpc.symm.trans hu)
  have hl : ∀ {pc : CallerPc} {b : Bool}, s.callers t = pc → pc.locked = b →
      (s.callers t).locked = b := fun hpc hb => hpc ▸ hb
  obtain ⟨hclear, hforget⟩ := hc.2 t rfl
  obtain ⟨pc, hpc⟩ : ∃ pc, s.callers t = pc := ⟨_, rfl⟩
  rw [hpc] at h hclear hforget
  cases pc with
  | idle => cases h
  | postLock notification =>
    obtain ⟨hm, rfl⟩ := lock_eq_ok h
    exact hi.lock hm rfl (hne hpc nofun) trivial
  | postSend notification =>
    cases h
    exact hi.send (hl hpc rfl) (hne hpc nofun) trivial
  | postUnlock =>
    cases h
    exact hi.unlock (hl hpc rfl) rfl (hne hpc nofun)
  | setLock cb =>
    obtain ⟨hm, rfl⟩ := lock_eq_ok h
    exact hi.lock hm rfl (hne hpc nofun) trivial
  | setTest cb =>
    cases h
    split
    · exact hi.goto_only (hl hpc rfl) (hne hpc nofun) trivial
    · rename_i hnone
      refine hi.goto_only (hl hpc rfl) (hne hpc nofun) ?_
      have ho := hi.only_notifier (hl hpc rfl) (hne hpc nofun)
      rwa [not_isSome_iff_eq_none.mp hnone] at ho
  | setSave cb =>
    cases h
    exact hi.goto_only (hl hpc rfl) (hne hpc nofun) trivial
  | setClear cb parent =>
    cases h
    refine hi.goto (.setJoin cb parent) (hl hpc rfl) (hne hpc nofun) s.freed false s.requests
      s.wire (Or.inl (hl hpc rfl)) ⟨[], rfl⟩ ⟨rfl, fun i n hn hwait => ?_⟩
    have hlive : n.pc ≠ .ended := by
      rw [hwait]
      nofun
    have hsome := hi.only_notifier (hl hpc rfl) (hne hpc nofun) i n hn hlive
    exact hclear rfl i hsome n hn hwait
  | setJoin cb parent =>
    cases h
    have hk := hi.knows hpc
    exact hi.goto_only (hl hpc rfl) (hne hpc nofun)
      ⟨hk.1, hk.2, hi.only_notifier (hl hpc rfl) (hne hpc nofun)⟩
  | setJoining cb parent thread =>
    dsimp only [Np.callerStep] at h
    split at h
    · rename_i hended
      cases h
      exact hi.goto_only (hl hpc rfl) (hne hpc nofun) (ended_only (hi.knows hpc).2.2 hended)
    · cases h
  | setForget cb parent =>
    cases h
    have ho : Only s.notifiers none := hi.knows hpc
    refine hi.move rfl rfl ⟨rfl, rfl, rfl⟩ ⟨[], rfl⟩ ((hi.callers t).trans (by rw [hpc]; rfl))
      (fun _ _ => Iff.rfl) (fun i n hn hlive => nomatch ho i n hn hlive)
      (fun i n hn hlive => nomatch ho i n hn hlive) (Or.inr id) ho
  | setRestore cb parent =>
    cases h
    exact hi.goto (.setCreate cb) (hl hpc rfl) (hne hpc nofun) s.freed parent s.requests s.wire
      (Or.inl (hl hpc rfl)) ⟨[], rfl⟩ (hi.knows hpc)
  | setCreate cb =>
    dsimp only [Np.callerStep] at h
    cases cb with
    | none =>
      cases h
      exact hi.goto_only (hl hpc rfl) (hne hpc nofun) trivial
    | some cbfunc =>
      dsimp only at h
      split at h
      · cases h
        exact hi.create hpc
      · cases h
        exact hi.goto_only (hl hpc rfl) (hne hpc nofun) trivial
  | setStore thread =>
    cases h
    have ho : Only s.notifiers (some thread) := hi.knows hpc
    exact hi.move rfl rfl ⟨rfl, rfl, rfl⟩ ⟨[], rfl⟩ ((hi.callers t).trans (by rw [hpc]; rfl))
      (fun _ _ => Iff.rfl) (fun i n hn hlive => Or.inl (ho i n hn hlive)) hi.installed
      (Or.inr id) trivial
  | setUnlock =>
    cases h
    exact hi.unlock (hl hpc rfl) rfl (hne hpc nofun)
  | freeShutdown =>
    cases h
    exact hi.send (hl hpc rfl) (hne hpc nofun) trivial
  | freeSave =>
    cases h
    exact hi.goto_only (hl hpc rfl) (hne hpc nofun) trivial
  | freeClear parent =>
    cases h
    exact hi.goto (.freeTest parent) (hl hpc rfl) (hne hpc nofun) s.freed false s.requests s.wire
      (Or.inr fun _ => rfl) ⟨[], rfl⟩ trivial
  | freeTest parent =>
    cases h
    split
    · exact hi.goto_only (hl hpc rfl) (hne hpc nofun) trivial
    · exact hi.goto_only (hl hpc rfl) (hne hpc nofun) trivial
  | freeJoin parent =>
    cases h
    exact hi.goto_only (hl hpc rfl) (hne hpc nofun) trivial
  | freeJoining parent thread =>
    dsimp only [Np.callerStep] at h
    split at h
    · cases h
      exact hi.goto_only (hl hpc rfl) (hne hpc nofun) trivial
    · cases h
  | freeForget =>
    cases h
    refine hi.move rfl rfl ⟨rfl, rfl, rfl⟩ ⟨[], rfl⟩ ((hi.callers t).trans (by rw [hpc]; rfl))
      (fun _ _ => Iff.rfl) (fun i n hn hlive => ?_) hi.installed (Or.inr id) trivial
    -- the notifier of the client has ended, so one that runs is about to be stored
    rcases hi.named i n hn hlive with hs | ⟨u, hu⟩
    · exact absurd (hforget rfl i hs n hn) hlive
    · have hut : u ≠ t := by
        rintro rfl
        exact hne hpc nofun i hu
      exact Or.inr ⟨u, (update_of_ne hut ..).trans hu⟩
  | freeReceive parent =>
    dsimp only [Np.callerStep] at h
    split at h
    · cases hw : s.wire with
      | nil =>
        rw [hw] at h
        cases h
      | cons dict rest =>
        rw [hw] at h
        cases h
        exact hi.goto CallerPc.freeRelease (hl hpc rfl) (hne hpc nofun) s.freed s.parent
          s.requests rest (Or.inr id) ⟨[dict], hw⟩ trivial
    · cases h
      exact hi.goto_only (hl hpc rfl) (hne hpc nofun) trivial
  | freeRelease =>
    cases h
    exact hi.goto CallerPc.idle (hl hpc rfl) (hne hpc nofun) true s.parent s.requests s.wire
      (Or.inr id) ⟨[], rfl⟩ trivial

theorem passedOn_append (calls calls' : List Call) :
    passedOn (calls ++ calls') = passedOn calls ++ passedOn calls' := by
  rw [passedOn, passedOn, passedOn, filter_append, map_append]

theorem passedOn_parseMessage (dict : Dict) (cbfunc : Callback) :
    passedOn ((parseMessage dict).call cbfunc).toList =
      (relayed dict).toList.map fun name => (some cbfunc, name) := by
  rw [parseMessage, relayed]
  cases commandOf dict with
  | none => rfl
  | some cmdValue =>
    dsimp only
    by_cases hcmd : cmdValue = lit "RelayNotification"
    · rw [if_pos hcmd, if_pos (congrArg some hcmd)]
      cases nameOf dict with
      | none => rfl
      | some nameValue => rfl
    · rw [if_neg hcmd, if_neg fun h => hcmd (some.inj h)]
      rfl

theorem passedOn_of_not_relay {v : Verdict} (hv : v.relay = false) (cbfunc : Callback) :
    passedOn (v.call cbfunc).toList = [] := by
  rw [Verdict.call, hv]
  split
  · rfl
  · cases v.notification with
    | none => rfl
    | some name => rfl

theorem Consistent.turn {pc : NotifierPc} (hi : Consistent s) (hn : s.notifiers[i]? = some n)
    (hlive : n.pc ≠ .ended) (hlocked : n.pc.locked = pc.locked)
    (hwait : pc = .lock → s.parent = true) (hquiet : pc.calls = false)
    (hhand : n.inHand = Notifier.inHand ⟨n.cbfunc, pc⟩) : Consistent (s.turn i n pc) := by
  refine hi.turned hn hlive rfl ⟨rfl, rfl, rfl, rfl⟩ ?_ (fun _ _ => Iff.rfl) hwait hquiet ?_
    hi.inOrder
  · rw [← hlocked]
    exact hi.notifiers i n hn
  · rw [← hhand]
    exact id

theorem Consistent.notifierStep (hi : Consistent s) (hn : s.notifiers[i]? = some n)
    (h : notifierStep s i n answer = .ok s') : Consistent s' := by
  obtain ⟨cbfunc, pc⟩ := n
  have hothers : s.mutex = some (.notifier i) ∨ s.mutex = none → ∀ mutex : Option Thread,
      mutex = some (.notifier i) ∨ mutex = none → ∀ thread : Thread, thread ≠ .notifier i →
        (mutex = some thread ↔ s.mutex = some thread) := by
    rintro (hm | hm) mutex (rfl | rfl) thread hne
    all_goals rw [hm]
    · exact ⟨nofun, fun h => absurd (some.inj h).symm hne⟩
    · exact ⟨fun h => absurd (some.inj h).symm hne, nofun⟩
  cases pc with
  | loop =>
    cases h
    split
    · exact hi.turn hn nofun rfl nofun rfl rfl
    · exact hi.turn hn nofun rfl nofun rfl rfl
  | check =>
    cases h
    split
    · rename_i hp
      exact hi.turn hn nofun rfl (fun _ => hp) rfl rfl
    · exact hi.turn hn nofun rfl nofun rfl rfl
  | lock =>
    obtain ⟨hm, rfl⟩ := lock_eq_ok h
    exact hi.turned hn nofun rfl ⟨rfl, rfl, rfl, rfl⟩ ⟨fun _ => rfl, fun _ => rfl⟩
      (hothers (Or.inr hm) _ (Or.inl rfl)) nofun rfl id hi.inOrder
  | receive =>
    cases h
    exact hi.turn hn nofun rfl nofun rfl rfl
  | receiving parent =>
    dsimp only [Np.notifierStep] at h
    split at h
    · cases h
      exact hi.turn hn nofun rfl nofun rfl (passedOn_of_not_relay rfl cbfunc).symm
    · split at h
      · cases hw : s.wire with
        | nil =>
          rw [hw] at h
          cases h
        | cons dict rest =>
          rw [hw] at h
          cases h
          refine hi.turned hn nofun rfl ⟨rfl, rfl, rfl, rfl⟩ (hi.notifiers i _ hn)
            (fun _ _ => Iff.rfl) nofun rfl (fun honce => ?_) ?_
          · have hinst : s.installed = some cbfunc := hi.installed i _ hn nofun
            have hempty : s.received = passedOn s.calls := honce.trans (append_nil _)
            show s.received ++ _ = passedOn s.calls ++ passedOn _
            rw [hempty, passedOn_parseMessage, hinst]
          · obtain ⟨taken, htaken, hsub⟩ := hi.inOrder
            refine ⟨taken ++ [dict], ?_, ?_⟩
            · show s.sent = _
              rw [htaken, hw, append_assoc]
              rfl
            · show (List.map Prod.snd (s.received ++ _)).Sublist _
              rw [map_append, filterMap_append]
              refine hsub.append ?_
              rw [List.map_map, List.filterMap_cons]
              cases relayed dict with
              | none => exact List.Sublist.refl _
              | some name => exact List.Sublist.refl _
      · cases h
        exact hi.turn hn nofun rfl nofun rfl (passedOn_of_not_relay rfl cbfunc).symm
  | unlock v =>
    cases h
    have hm := (hi.notifiers i _ hn).mpr rfl
    exact hi.turned hn nofun rfl ⟨rfl, rfl, rfl, rfl⟩ ⟨nofun, nofun⟩
      (hothers (Or.inl hm) _ (Or.inr rfl)) nofun rfl id hi.inOrder
  | report v =>
    cases h
    have hpass : ∀ pc : NotifierPc, Notifier.inHand ⟨cbfunc, pc⟩ = [] →
        s.received = passedOn s.calls ++ passedOn (v.call cbfunc).toList →
        s.received = passedOn (s.calls ++ (v.call cbfunc).toList) ++
          Notifier.inHand ⟨cbfunc, pc⟩ := by
      intro pc hpc honce
      rw [passedOn_append, hpc, append_nil]
      exact honce
    have hm := hi.notifiers i _ hn
    dsimp only
    split
    · exact hi.turned hn nofun rfl ⟨rfl, rfl, rfl, rfl⟩ hm (fun _ _ => Iff.rfl) nofun rfl
        (hpass .ended rfl) hi.inOrder
    · exact hi.turned hn nofun rfl ⟨rfl, rfl, rfl, rfl⟩ hm (fun _ _ => Iff.rfl) nofun rfl
        (hpass .sleep rfl) hi.inOrder
  | calling v t => exact absurd (hi.quiet i _ hn) Bool.true_eq_false.mp
  | sleep =>
    cases h
    exact hi.turn hn nofun rfl nofun rfl rfl
  | ended => cases h

theorem Consistent.step {e : Event} (hi : Consistent s) (hc : Careful s e) (h : step s e = .ok s') :
    Consistent s' := by
  cases e with
  | device dict =>
    cases h
    obtain ⟨taken, htaken, hsub⟩ := hi.inOrder
    refine ⟨hi.callers, hi.notifiers, hi.named, hi.installed, hi.known, hi.quiet, hi.once, taken, ?_,
      hsub⟩
    show s.sent ++ [dict] = taken ++ (s.wire ++ [dict])
    rw [htaken, append_assoc]
  | call t op =>
    rw [Np.step] at h
    split at h
    · rename_i hidle
      cases h
      have hfree : op.start.locked = false := by
        cases op with
        | post | set | free => rfl
      exact hi.goto_only (by rw [hidle, hfree]; rfl) (fun i h => nomatch hidle.symm.trans h)
        (knows_of_not_locked hfree)
    · cases h
  | caller t answer =>
    rw [Np.step] at h
    split at h
    · cases h
    · exact hi.callerStep hc h
  | notifier i answer =>
    rw [Np.step] at h
    cases hn : s.notifiers[i]? with
    | none =>
      rw [hn] at h
      cases h
    | some n =>
      rw [hn] at h
      dsimp only at h
      split at h
      · cases h
      · exact hi.notifierStep hn h
  | callback i t op => exact absurd hc.1 Bool.true_eq_false.mp

theorem Consistent.not_hangs (hi : Consistent s) : ¬ s.Hangs := by
  rintro ⟨t, i, n, hjoins, hm, hn, hpc | ⟨v, u, hpc, -⟩⟩
  swap
  · have hquiet := hi.quiet i n hn
    rw [hpc] at hquiet
    cases hquiet
  have hlock := (hi.callers t).mp hm
  cases hcall : s.callers t with
  | setJoining cb parent thread =>
    have hk := hi.knows hcall
    exact hk.2.1 i n hn hpc
  | freeJoining parent thread =>
    rw [hcall] at hlock
    cases hlock
  | _ =>
    rw [hcall] at hjoins
    cases hjoins

theorem Notifier.inHand_length (n : Notifier) : n.inHand.length ≤ 1 := by
  have hcall : ∀ v : Verdict, (passedOn (v.call n.cbfunc).toList).length ≤ 1 := by
    intro v
    rw [passedOn, length_map]
    refine (length_filter_le _ _).trans ?_
    cases v.call n.cbfunc with
    | none => exact Nat.zero_le 1
    | some c => exact Nat.le_refl 1
  rw [Notifier.inHand]
  split
  · exact hcall _
  · exact hcall _
  · exact hcall _
  · exact Nat.zero_le 1

theorem Consistent.delivered (hi : Consistent s) : s.Delivered where
  once := hi.once
  pending := by
    by_cases hrun : ∃ (i : Nat) (n : Notifier), s.notifiers[i]? = some n ∧ n.pc ≠ .ended
    · obtain ⟨i, n, hn, hlive⟩ := hrun
      rw [hi.inHand_eq hn hlive]
      exact n.inHand_length
    · have hnone : s.inHand = [] := by
        rw [NpState.inHand, flatMap_eq_nil_iff]
        intro n hn
        obtain ⟨i, hi'⟩ := mem_iff_getElem?.mp hn
        refine Notifier.inHand_ended ?_
        by_contra hlive
        exact hrun ⟨i, n, hi', hlive⟩
      rw [hnone]
      exact Nat.zero_le 1
  inOrder := hi.inOrder

end Invariant

/-! ## Runs -/

/-- **Callbacks are replaced without a deadlock.** In a run whose steps are careful no thread waits
for a notifier that waits for its mutex, and every notification that a notifier received is passed
once, in order, to the callback that was installed. -/
theorem runs_deliver {es : List Event} {s : NpState} (hc : Along step Careful NpState.new es)
    (hrun : runAll step NpState.new es = .ok s) : ¬ s.Hangs ∧ s.Delivered := by
  have hi : Consistent s := hc.inv (fun _ _ _ hi hc h => hi.step hc h) Consistent.new hrun
  exact ⟨hi.not_hangs, hi.delivered⟩

/-- The statements of one call. -/
def statements (t : Nat) (op : Operation) (n : Nat) : List Event :=
  .call t op :: List.replicate n (.caller t 0)

/-- A callback is set, and its notifier starts. -/
def callbackSet : List Event := statements 0 (.set (some 7)) 5

/-- A callback is set, and its notifier has a notification for it. -/
def callbackNotified : List Event :=
  callbackSet ++
    [Event.device [(lit "Command", newString (lit "RelayNotification")),
      (lit "Name", newString [0x61])]] ++
    List.replicate 6 (Event.notifier 0 0)

/-- It is called and replaced, and the client is freed. -/
def callbackReplaced : List Event :=
  callbackNotified ++ statements 1 (.set (some 8)) 5 ++ List.replicate 3 (Event.notifier 0 0) ++
    List.replicate 6 (Event.caller 1 0) ++ statements 1 .free 5 ++ [Event.notifier 1 0] ++
    List.replicate 3 (Event.caller 1 0)

theorem runs_deliver_replaced :
    ∃ s, runAll step NpState.new callbackReplaced = .ok s ∧ ¬ s.Hangs ∧ s.Delivered := by
  obtain ⟨s, hs, -⟩ := exists_ok (p := fun s => s.calls = [⟨7, [0x61], true⟩])
    (x := runAll step NpState.new callbackReplaced) (by decide +kernel)
  exact ⟨s, hs, runs_deliver (by decide +kernel) hs⟩

/-- The notifier has looked at `client->parent` when another thread clears the callback; and the
callback posts a notification when another thread clears it. -/
theorem runs_hang :
    (∃ s, runAll step NpState.new (callbackSet ++ List.replicate 2 (Event.notifier 0 0) ++
      statements 1 (.set none) 5) = .ok s ∧ s.Hangs) ∧
    ∃ s, runAll step NpState.new (callbackNotified ++ statements 1 (.set none) 5 ++
      [.callback 0 2 (.post [])]) = .ok s ∧ s.Hangs := by
  constructor
  · obtain ⟨s, hs, hp⟩ := exists_ok
      (p := fun s => (s.callers 1).joins = some 0 ∧ s.mutex = some (.caller 1) ∧
        s.notifiers[0]? = some ⟨7, .lock⟩)
      (x := runAll step NpState.new (callbackSet ++ List.replicate 2 (Event.notifier 0 0) ++
        statements 1 (.set none) 5)) (by decide +kernel)
    have hp := of_decide_eq_true hp
    exact ⟨s, hs, 1, 0, _, hp.1, hp.2.1, hp.2.2, .inl rfl⟩
  · obtain ⟨s, hs, hp⟩ := exists_ok
      (p := fun s => (s.callers 1).joins = some 0 ∧ s.mutex = some (.caller 1) ∧
        s.notifiers[0]? = some ⟨7, .calling ⟨0, some [0x61], true⟩ 2⟩ ∧ (s.callers 2).waits = true)
      (x := runAll step NpState.new (callbackNotified ++ statements 1 (.set none) 5 ++
        [.callback 0 2 (.post [])])) (by decide +kernel)
    have hp := of_decide_eq_true hp
    exact ⟨s, hs, 1, 0, _, hp.1, hp.2.1, hp.2.2.1, .inr ⟨_, 2, rfl, hp.2.2.2⟩⟩

end IDeviceStack.Libimobiledevice.Np
