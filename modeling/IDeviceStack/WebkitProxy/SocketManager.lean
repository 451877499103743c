/-
# `WebkitProxy.SocketManager` — blocked sends and paused reads

`socket_manager.c`: `sm_send` writes what the socket takes and queues the rest,
`sm_select` sends on what is queued and reads.  An fd whose input made a send block is not
read until that send is through.

* An `fd_set` is a `Finset` (an fd from `FD_SETSIZE` on, for which `FD_SET` writes behind the set,
  is not met), `fd_to_sendq` an `AList` of the nodes of each fd, and a pointer
  a `Nat` in which 0 is `NULL`.
* Every callback may call `sm_add_fd`, `sm_remove_fd` and `sm_send`, so a state says where
  the code stands: in which callbacks of `sm_send` and `sm_remove_fd` (`calls`), and where
  in `sm_select` (`phase`).  One step is one call, or the code between two callbacks.
* What the system calls and the callbacks answer is part of the event.
* A `Book` is kept for each fd: what was passed to `sm_send` and what was sent since it was
  added.  No operation reads it.

`sm_remove_fd` leaves the queue of its fd behind.  What that does to the bytes of a connection
is in `SendQueue`, and what it does to the sets in `FdSets`.
-/
import Mathlib.Data.List.AList
import Mathlib.Data.Finset.Basic

namespace IDeviceStack.WebkitProxy

/-- `struct sm_sendq`, from `begin` and from `head` to `tail`. -/
structure Sendq where
  value : Nat
  recvFd : Nat
  data : List UInt8
  rest : List UInt8
  /-- Which connection of the fd it was queued for. -/
  life : Nat
  deriving DecidableEq

/-- `fd_to_sendq`: a node and what is behind it. -/
abbrev SendqTable := AList fun _ : Nat => List Sendq

namespace SendqTable

def get (t : SendqTable) (fd : Nat) : List Sendq := (t.lookup fd).getD []

/-- `ht_put`: no node is `NULL`, and takes the entry away. -/
def put (t : SendqTable) (fd : Nat) (nodes : List Sendq) : SendqTable :=
  if nodes = [] then t.erase fd else t.insert fd nodes

/-- The search of `sm_resend` for a node that names an fd. -/
def names (t : SendqTable) (recvFd : Nat) : Bool :=
  t.entries.any fun e => e.2.any fun node => node.recvFd = recvFd

def unname (fd : Nat) (node : Sendq) : Sendq :=
  if node.recvFd = fd then { node with recvFd := 0 } else node

/-- The loop at the end of `sm_remove_fd`. -/
def forget (t : SendqTable) (fd : Nat) : SendqTable :=
  ⟨t.entries.map fun e => ⟨e.1, e.2.map (unname fd)⟩, by
    have hkeys : (t.entries.map fun e => (⟨e.1, e.2.map (unname fd)⟩ :
        Sigma fun _ : Nat => List Sendq)).keys = t.entries.keys := by
      exact List.map_map
    rw [List.NodupKeys, hkeys]
    exact t.nodupKeys⟩

end SendqTable

/-! ## Sending -/

inductive SendResult where
  | sent (n : Nat)
  /-- `EWOULDBLOCK`. -/
  | blocked
  | failed

inductive SendOutcome where
  | done
  | blocked
  | failed
  deriving DecidableEq

/-- The loop of `sm_send`: how it ends, what was sent and what is left. -/
def sendLoop : List UInt8 → List SendResult → SendOutcome × List UInt8 × List UInt8
  | data, [] => (.blocked, [], data)
  | data, .blocked :: _ => (.blocked, [], data)
  | data, .failed :: _ => (.failed, [], data)
  | data, .sent n :: results =>
    if n = 0 then (.blocked, [], data)
    else if data.length ≤ n then (.done, data, [])
    else
      let r := sendLoop (data.drop n) results
      (r.1, data.take n ++ r.2.1, r.2.2)

/-- The inner loop of `sm_resend`, which sends only what is there. -/
def resendLoop (data : List UInt8) (results : List SendResult) :
    SendOutcome × List UInt8 × List UInt8 :=
  if data = [] then (.done, [], []) else sendLoop data results

/-! ## The state -/

/-- What happened to an fd. -/
structure Book where
  /-- How often it was added. -/
  life : Nat
  /-- It was added, and `sm_remove_fd` was not called. -/
  live : Bool
  /-- A call of `sm_send` returned `SM_ERROR`. -/
  failed : Bool
  passed : List UInt8
  sent : List UInt8
  /-- What was sent and had been queued for an earlier connection. -/
  foreign : List UInt8

namespace Book

/-- `sm_add_fd`. -/
def add (b : Book) : Book := ⟨b.life + 1, true, false, [], [], b.foreign⟩

/-- `sm_remove_fd`. -/
def remove (b : Book) : Book := { b with live := false }

/-- `sm_send`, and what the socket took of the data. -/
def send (b : Book) (data sent : List UInt8) : Book :=
  { b with passed := b.passed ++ data, sent := b.sent ++ sent }

def fail (b : Book) : Book := { b with failed := true }

/-- `sm_resend`, of a node of a connection. -/
def resend (b : Book) (life : Nat) (sent : List UInt8) : Book :=
  { b with
    sent := b.sent ++ sent
    foreign := if life = b.life then b.foreign else b.foreign ++ sent }

end Book

/-- A callback that was called and has not returned. -/
inductive Call where
  /-- `on_sent`, of `sm_send`. -/
  | sent (fd value : Nat) (data : List UInt8)
  /-- `on_close`, of `sm_remove_fd`. -/
  | closing (fd value : Nat) (isServer : Bool)

/-- Where `sm_select` stands.  `numLeft` is its local variable. -/
inductive Phase where
  | idle
  /-- At the head of the loop. -/
  | scan (fd numLeft : Nat)
  /-- In `sm_accept`, at `accept`. -/
  | accept (fd numLeft : Nat)
  | onAccept (fd newFd numLeft : Nat)
  /-- In the `on_close` of a new fd that could not be added. -/
  | refused (fd newFd numLeft : Nat)
  /-- In `sm_resend`, in `on_sent` for the node that is first. -/
  | onSent (fd : Nat) (canRecv : Bool) (numLeft : Nat)
  /-- Behind `sm_resend`. -/
  | resent (fd : Nat) (canRecv : Bool) (numLeft : Nat)
  /-- In `sm_recv`, at `recv`. -/
  | recv (fd numLeft : Nat)
  | onRecv (fd numLeft : Nat)
  /-- Behind the loop of `sm_recv`. -/
  | recvEnd (fd numLeft : Nat)

/-- `struct sm_private`. -/
structure Sm where
  allFds : Finset Nat
  maxFd : Int
  serverFds : Finset Nat
  sendFds : Finset Nat
  recvFds : Finset Nat
  fdToValue : Nat → Nat
  fdToSendq : SendqTable
  tmpSendFds : Finset Nat
  tmpRecvFds : Finset Nat
  tmpFailFds : Finset Nat
  currRecvFd : Nat
  calls : List Call
  phase : Phase
  book : Nat → Book

namespace Sm

/-- `sm_new`. -/
def new : Sm :=
  ⟨∅, -1, ∅, ∅, ∅, fun _ => 0, ∅, ∅, ∅, ∅, 0, [], .idle, fun _ => ⟨0, false, false, [], [], []⟩⟩

def queue (s : Sm) (fd : Nat) : List Sendq := s.fdToSendq.get fd

/-- The bytes that are queued. -/
def queued (s : Sm) (fd : Nat) : List UInt8 := (s.queue fd).flatMap Sendq.rest

def setQueue (s : Sm) (fd : Nat) (nodes : List Sendq) : Sm :=
  { s with fdToSendq := s.fdToSendq.put fd nodes }

def enter (s : Sm) (phase : Phase) : Sm := { s with phase := phase }

def note (s : Sm) (fd : Nat) (f : Book → Book) : Sm :=
  { s with book := Function.update s.book fd (f (s.book fd)) }

/-! ## `sm_add_fd` and `sm_remove_fd` -/

/-- `sm_add_fd`, and whether it is `SM_SUCCESS`. -/
def addFd (s : Sm) (fd value : Nat) (isServer : Bool) : Bool × Sm :=
  if fd ∈ s.allFds then (false, s)
  else
    let s' := { s with fdToValue := Function.update s.fdToValue fd value }
    if s.fdToValue fd ≠ 0 then (false, s')
    else
      (true, { s' with
        allFds := insert fd s.allFds
        sendFds := s.sendFds.erase fd
        recvFds := insert fd s.recvFds
        tmpSendFds := s.tmpSendFds.erase fd
        tmpRecvFds := s.tmpRecvFds.erase fd
        tmpFailFds := s.tmpFailFds.erase fd
        serverFds := if isServer then insert fd s.serverFds else s.serverFds
        maxFd := max s.maxFd fd
        book := Function.update s.book fd (s.book fd).add })

/-- `sm_remove_fd`, up to the call of `on_close`. -/
def removeFd (s : Sm) (fd : Nat) : Sm :=
  if fd ∉ s.allFds then s
  else { s with
    fdToValue := Function.update s.fdToValue fd 0
    calls := .closing fd (s.fdToValue fd) (decide (fd ∈ s.serverFds)) :: s.calls
    book := Function.update s.book fd (s.book fd).remove }

/-- The loop that lowers `max_fd`. -/
def lowerMax (all : Finset Nat) : Nat → Int
  | 0 => if 0 ∈ all then 0 else -1
  | n + 1 => if n + 1 ∈ all then (n + 1 : Nat) else lowerMax all n

/-- `sm_remove_fd`, once `on_close` has returned. -/
def closed (s : Sm) (fd : Nat) (isServer : Bool) : Sm :=
  { s with
    allFds := s.allFds.erase fd
    serverFds := if isServer then s.serverFds.erase fd else s.serverFds
    sendFds := s.sendFds.erase fd
    recvFds := s.recvFds.erase fd
    tmpSendFds := s.tmpSendFds.erase fd
    tmpRecvFds := s.tmpRecvFds.erase fd
    tmpFailFds := s.tmpFailFds.erase fd
    maxFd := if fd = s.maxFd then lowerMax (s.allFds.erase fd) fd else s.maxFd
    fdToSendq := s.fdToSendq.forget fd
    book := Function.update s.book fd (s.book fd).remove }

/-! ## `sm_send` -/

/-- A send that cannot be done now. -/
def enqueue (s : Sm) (fd value : Nat) (rest : List UInt8) : Sm :=
  let node : Sendq := ⟨value, s.currRecvFd, rest, rest, (s.book fd).life⟩
  let pause := decide (s.currRecvFd ≠ 0 ∧ s.currRecvFd ∈ s.recvFds)
  { s with
    fdToSendq := s.fdToSendq.put fd (s.queue fd ++ [node])
    sendFds := if s.queue fd = [] then insert fd s.sendFds else s.sendFds
    recvFds := if pause then s.recvFds.erase s.currRecvFd else s.recvFds
    tmpRecvFds := if pause then s.tmpRecvFds.erase s.currRecvFd else s.tmpRecvFds }

/-- What `sm_send` tells the socket at once, if anything. -/
def sendNow (s : Sm) (fd : Nat) (data : List UInt8) (results : List SendResult) :
    SendOutcome × List UInt8 × List UInt8 :=
  if s.queue fd = [] then sendLoop data results else (.blocked, [], data)

/-- `sm_send`, up to the call of `on_sent`. -/
def send (s : Sm) (fd : Nat) (data : List UInt8) (value : Nat) (results : List SendResult) :
    Sm :=
  let r := s.sendNow fd data results
  let s' := s.note fd fun b => b.send data r.2.1
  match r.1 with
  | .done => { s' with calls := .sent fd value data :: s.calls }
  | .blocked => s'.enqueue fd value r.2.2
  | .failed => s'.note fd Book.fail

/-! ## `sm_resend` -/

/-- A node that is through is taken off its queue, and the fd that it paused is read again,
unless another node names it. -/
def pop (s : Sm) (fd : Nat) : Sm :=
  match s.queue fd with
  | [] => s
  | node :: nodes =>
    let s' := s.setQueue fd nodes
    { s' with
      sendFds := if nodes = [] then s.sendFds.erase fd else s.sendFds
      recvFds :=
        if node.recvFd ≠ 0 ∧ node.recvFd ∈ s.allFds ∧ s'.fdToSendq.names node.recvFd = false then
          insert node.recvFd s.recvFds
        else s.recvFds }

/-- One turn of the outer loop of `sm_resend`. -/
def resend (s : Sm) (fd : Nat) (canRecv : Bool) (numLeft : Nat) (results : List SendResult) :
    Sm :=
  match s.queue fd with
  | [] => s.enter (.resent fd canRecv numLeft)
  | node :: nodes =>
    let r := resendLoop node.rest results
    let s' := s.note fd fun b => b.resend node.life r.2.1
    let nodes' := { node with rest := r.2.2 } :: nodes
    match r.1 with
    | .failed => (s'.enter (.resent fd canRecv numLeft)).removeFd fd
    | .blocked => (s'.setQueue fd nodes').enter (.resent fd canRecv numLeft)
    | .done => (s'.setQueue fd nodes').enter (.onSent fd canRecv numLeft)

/-! ## `sm_accept`, `sm_recv` and `sm_select` -/

inductive AcceptResult where
  | accepted (newFd : Nat)
  | blocked
  | failed

inductive RecvResult where
  | received
  /-- No bytes. -/
  | ended
  | blocked
  | failed

/-- What the calls of a step answer. -/
structure Answer where
  /-- Whether the callback that returns says `SM_SUCCESS`. -/
  ok : Bool
  /-- `*new_value`, of `on_accept`. -/
  newValue : Nat
  sends : List SendResult
  accept : AcceptResult
  recv : RecvResult

/-- One fd of the loop of `sm_select`. -/
def scan (s : Sm) (fd numLeft : Nat) (sends : List SendResult) : Sm :=
  if s.maxFd < fd ∨ numLeft = 0 then s.enter .idle
  else if fd ∉ s.tmpSendFds ∧ fd ∉ s.tmpRecvFds ∧ fd ∉ s.tmpFailFds then
    s.enter (.scan (fd + 1) numLeft)
  else if fd ∈ s.tmpFailFds then
    (s.enter (.scan (fd + 1) (numLeft - 1))).removeFd fd
  else if fd ∈ s.serverFds then s.enter (.accept fd (numLeft - 1))
  else if fd ∈ s.tmpSendFds then
    s.resend fd (decide (fd ∈ s.tmpRecvFds)) (numLeft - 1) sends
  else s.enter (.resent fd true (numLeft - 1))

/-- `sm_select` goes on, with no callback of `sm_send` or `sm_remove_fd` under way. -/
def proceed (s : Sm) (a : Answer) : Sm :=
  match s.phase with
  | .idle => s
  | .scan fd numLeft => s.scan fd numLeft a.sends
  | .accept fd numLeft =>
    match a.accept with
    | .accepted newFd => s.enter (.onAccept fd newFd numLeft)
    | .blocked => s.enter (.scan (fd + 1) numLeft)
    | .failed => (s.enter (.scan (fd + 1) numLeft)).removeFd fd
  | .onAccept fd newFd numLeft =>
    if a.ok then
      let r := s.addFd newFd a.newValue false
      r.2.enter (if r.1 then .accept fd numLeft else .refused fd newFd numLeft)
    else s.enter (.accept fd numLeft)
  | .refused fd _ numLeft => s.enter (.accept fd numLeft)
  | .onSent fd canRecv numLeft => (s.pop fd).resend fd canRecv numLeft a.sends
  | .resent fd canRecv numLeft =>
    if canRecv then { s with phase := .recv fd numLeft, currRecvFd := fd }
    else s.enter (.scan (fd + 1) numLeft)
  | .recv fd numLeft =>
    match a.recv with
    | .received => s.enter (.onRecv fd numLeft)
    | .ended => (s.enter (.recvEnd fd numLeft)).removeFd fd
    | .blocked => s.enter (.recvEnd fd numLeft)
    | .failed => (s.enter (.recvEnd fd numLeft)).removeFd fd
  | .onRecv fd numLeft =>
    if a.ok then s.enter (.recv fd numLeft)
    else (s.enter (.recvEnd fd numLeft)).removeFd fd
  | .recvEnd fd numLeft => { s with phase := .scan (fd + 1) numLeft, currRecvFd := 0 }

/-- What runs next: `sm_send` returns, `sm_remove_fd` goes on, or `sm_select` does. -/
def go (s : Sm) (a : Answer) : Sm :=
  match s.calls with
  | .sent _ _ _ :: calls => { s with calls := calls }
  | .closing fd _ isServer :: calls => { s with calls := calls }.closed fd isServer
  | [] => s.proceed a

/-- `sm_select`, up to the loop. -/
def select (s : Sm) (recvReady sendReady failReady : Finset Nat) (numReady : Nat) : Sm :=
  if s.maxFd ≤ 0 then s
  else
    { s with
      tmpSendFds := s.sendFds ∩ sendReady
      tmpRecvFds := s.recvFds ∩ recvReady
      tmpFailFds := s.allFds ∩ failReady
      phase := if numReady = 0 then .idle else .scan 0 numReady }

/-! ## Runs -/

/-- Whether a callback is under way, or none of this code. -/
def calling (s : Sm) : Bool :=
  match s.calls, s.phase with
  | _ :: _, _ => true
  | [], .idle => true
  | [], .onAccept _ _ _ => true
  | [], .refused _ _ _ => true
  | [], .onSent _ _ _ => true
  | [], .onRecv _ _ => true
  | [], _ => false

inductive Event where
  | addFd (fd value : Nat) (isServer : Bool)
  | removeFd (fd : Nat)
  | send (fd : Nat) (data : List UInt8) (value : Nat) (results : List SendResult)
  | select (recvReady sendReady failReady : Finset Nat) (numReady : Nat)
  | go (a : Answer)

/-- A call that cannot be made changes nothing. -/
def step (s : Sm) : Event → Sm
  | .addFd fd value isServer => if s.calling then (s.addFd fd value isServer).2 else s
  | .removeFd fd => if s.calling then s.removeFd fd else s
  | .send fd data value results => if s.calling then s.send fd data value results else s
  | .select recvReady sendReady failReady numReady =>
    match s.calls, s.phase with
    | [], .idle => s.select recvReady sendReady failReady numReady
    | _, _ => s
  | .go a => s.go a

/-- The states of the runs in which every step meets a condition. -/
inductive Reaches (P : Sm → Event → Prop) : Sm → Prop where
  | new : Reaches P new
  | step {s : Sm} {e : Event} (hrun : Reaches P s) (hstep : P s e) : Reaches P (s.step e)

def run (events : List Event) : Sm := events.foldl step new

theorem reaches_run (events : List Event) : Reaches (fun _ _ => True) (run events) := by
  have hfrom : ∀ s, Reaches (fun _ _ => True) s →
      Reaches (fun _ _ => True) (events.foldl step s) := by
    induction events with
    | nil => exact fun _ hs => hs
    | cons e events ih => exact fun s hs => ih (s.step e) (.step hs trivial)
  exact hfrom new .new

/-- Nothing is there to be read, sent or accepted, and callbacks return `SM_SUCCESS`. -/
def quiet : Answer := ⟨true, 0, [], .blocked, .blocked⟩

end Sm

/-! ## The table of queues -/

namespace SendqTable

variable (t : SendqTable)

theorem get_put (fd : Nat) (nodes : List Sendq) (fd' : Nat) :
    (t.put fd nodes).get fd' = if fd' = fd then nodes else t.get fd' := by
  rw [put, get]
  by_cases hfd : fd' = fd
  · subst hfd
    rw [if_pos rfl]
    split
    · next hnil => rw [AList.lookup_erase, hnil, Option.getD_none]
    · rw [AList.lookup_insert, Option.getD_some]
  · rw [if_neg hfd]
    split
    · rw [AList.lookup_erase_ne hfd, get]
    · rw [AList.lookup_insert_ne hfd, get]

theorem get_put_self (fd : Nat) (nodes : List Sendq) : (t.put fd nodes).get fd = nodes := by
  rw [get_put, if_pos rfl]

theorem get_put_ne {fd fd' : Nat} (h : fd' ≠ fd) (nodes : List Sendq) :
    (t.put fd nodes).get fd' = t.get fd' := by
  rw [get_put, if_neg h]

theorem mem_get {fd : Nat} {node : Sendq} :
    node ∈ t.get fd ↔ ∃ nodes, (⟨fd, nodes⟩ : Sigma _) ∈ t.entries ∧ node ∈ nodes := by
  constructor
  · intro h
    rw [get] at h
    cases hlookup : t.lookup fd with
    | none =>
      rw [hlookup] at h
      exact absurd h List.not_mem_nil
    | some nodes =>
      rw [hlookup] at h
      exact ⟨nodes, AList.mem_lookup_iff.1 hlookup, h⟩
  · rintro ⟨nodes, hentry, hnode⟩
    rw [get, Option.mem_def.1 (AList.mem_lookup_iff.2 hentry)]
    exact hnode

theorem names_iff {recvFd : Nat} :
    t.names recvFd = true ↔ ∃ fd, ∃ node ∈ t.get fd, node.recvFd = recvFd := by
  rw [names, List.any_eq_true]
  constructor
  · rintro ⟨e, he, hany⟩
    rw [List.any_eq_true] at hany
    obtain ⟨node, hnode, heq⟩ := hany
    exact ⟨e.1, node, t.mem_get.2 ⟨e.2, he, hnode⟩, of_decide_eq_true heq⟩
  · rintro ⟨fd, node, hnode, heq⟩
    obtain ⟨nodes, hentry, hmem⟩ := t.mem_get.1 hnode
    exact ⟨⟨fd, nodes⟩, hentry, List.any_eq_true.2 ⟨node, hmem, decide_eq_true heq⟩⟩

theorem get_forget (fd fd' : Nat) : (t.forget fd).get fd' = (t.get fd').map (unname fd) := by
  have hlookup : (t.forget fd).lookup fd' = (t.lookup fd').map (List.map (unname fd)) :=
    @List.dlookup_map₂ Nat _ (fun _ => List Sendq) (fun _ => List Sendq) t.entries
      (fun _ nodes => nodes.map (unname fd)) fd'
  rw [get, hlookup, get]
  cases t.lookup fd' <;> rfl

end SendqTable

theorem unname_rest (fd : Nat) (node : Sendq) : (SendqTable.unname fd node).rest = node.rest := by
  rw [SendqTable.unname]
  split <;> rfl

theorem unname_life (fd : Nat) (node : Sendq) : (SendqTable.unname fd node).life = node.life := by
  rw [SendqTable.unname]
  split <;> rfl

theorem unname_recvFd {fd r : Nat} (hr : r ≠ 0) (node : Sendq) :
    (SendqTable.unname fd node).recvFd = r ↔ node.recvFd = r ∧ r ≠ fd := by
  rw [SendqTable.unname]
  split
  · next heq =>
      constructor
      · intro h
        exact absurd h.symm hr
      · rintro ⟨h, hne⟩
        exact absurd (h.symm.trans heq) hne
  · next hne =>
      constructor
      · intro h
        exact ⟨h, fun heq => hne (h.trans heq)⟩
      · exact fun h => h.1

/-! ## What is sent -/

theorem sendLoop_split (data : List UInt8) (results : List SendResult) :
    data = (sendLoop data results).2.1 ++ (sendLoop data results).2.2 ∧
      ((sendLoop data results).1 = .done → (sendLoop data results).2.2 = []) := by
  induction results generalizing data with
  | nil => exact ⟨rfl, fun h => nomatch h⟩
  | cons result results ih =>
    cases result with
    | blocked => exact ⟨rfl, fun h => nomatch h⟩
    | failed => exact ⟨rfl, fun h => nomatch h⟩
    | sent n =>
      rw [sendLoop]
      split
      · exact ⟨rfl, fun h => nomatch h⟩
      · split
        · exact ⟨(List.append_nil data).symm, fun _ => rfl⟩
        · obtain ⟨hsplit, hdone⟩ := ih (data.drop n)
          refine ⟨?_, hdone⟩
          dsimp only
          rw [List.append_assoc, ← hsplit, List.take_append_drop]

theorem resendLoop_split (data : List UInt8) (results : List SendResult) :
    data = (resendLoop data results).2.1 ++ (resendLoop data results).2.2 ∧
      ((resendLoop data results).1 = .done → (resendLoop data results).2.2 = []) := by
  rw [resendLoop]
  split
  · next hnil =>
      subst hnil
      exact ⟨rfl, fun _ => rfl⟩
  · exact sendLoop_split data results

namespace Sm

/-! ## The conditions of a step -/

/-- The fd that a step adds. -/
def adds (s : Sm) : Event → Option Nat
  | .addFd fd _ _ =>
    if s.calling = true ∧ fd ∉ s.allFds ∧ s.fdToValue fd = 0 then some fd else none
  | .go a =>
    match s.calls, s.phase with
    | [], .onAccept _ newFd _ =>
      if a.ok = true ∧ newFd ∉ s.allFds ∧ s.fdToValue newFd = 0 then some newFd else none
    | _, _ => none
  | _ => none

/-- The fd that a step takes out of all sets, now that `on_close` has returned. -/
def closes (s : Sm) : Event → Option Nat
  | .go _ =>
    match s.calls with
    | .closing fd _ _ :: _ => some fd
    | _ => none
  | _ => none

/-- The fd for which a step queues a send. -/
def blocks (s : Sm) : Event → Option Nat
  | .send fd data _ results =>
    if s.calling = true ∧ (s.sendNow fd data results).1 = .blocked then some fd else none
  | _ => none

/-- A queued send names the fd. -/
def Paused (s : Sm) (fd : Nat) : Prop := fd ≠ 0 ∧ s.fdToSendq.names fd = true

/-- An fd is added when nothing of its queue is left. -/
def AddsEmpty (s : Sm) (e : Event) : Prop := ∀ fd, s.adds e = some fd → s.queued fd = []

/-- An fd is closed when it has no queue, a send blocks on an fd that is there, and an fd that
is added is not named. -/
structure Tidy (s : Sm) (e : Event) : Prop where
  closes : ∀ fd, s.closes e = some fd → s.queue fd = []
  blocks : ∀ fd, s.blocks e = some fd → fd ∈ s.allFds
  adds : ∀ fd, s.adds e = some fd → ¬ s.Paused fd

end Sm

end IDeviceStack.WebkitProxy
