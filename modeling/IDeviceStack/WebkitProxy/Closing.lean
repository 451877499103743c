/-
# `WebkitProxy.Closing` — descriptors that go

`sm_add_fd` and `sm_remove_fd` of `socket_manager.c`, and the handlers of
`ios_webkit_debug_proxy.c` that `sm_remove_fd` calls for the object of a descriptor.
These call `sm_remove_fd` again, for what hangs on the object.

* `removeFdAt` unrolls these calls, four levels of them; a fifth would be the fault `depth`.
* `sm_remove_fd` takes the value of a descriptor out of `fd_to_value` at its beginning,
  and the descriptor out of `all_fds` at its end.  Called for it in between, it hands `NULL` to
  `on_close`: `reentered`.
* Of the sets of descriptors only `all_fds` is here; the others and the blocked sends are
  those of `WebkitProxy.FdSets` and `WebkitProxy.SendQueue`.
-/
import IDeviceStack.WebkitProxy.Inspector

namespace IDeviceStack.WebkitProxy.Iwdp

open Lib Libplist

namespace Graph

/-- `ht_put(my->fd_to_value, fd, NULL)`. -/
def takeValue (g : Graph) (fd : Nat) : Graph :=
  { g with fdToValue := Function.update g.fdToValue fd none }

/-- `FD_CLR(fd, my->all_fds)`. -/
def clearFd (g : Graph) (fd : Nat) : Graph :=
  { g with allFds := g.allFds.erase fd }

def addFd (g : Graph) (fd : Nat) (value : Value) : Graph :=
  { g with
    fdToValue := Function.update g.fdToValue fd (some value)
    allFds := insert fd g.allFds }

end Graph

/-- `sm_add_fd`, and whether it succeeds. -/
def smAddFd (fd : Nat) (value : Value) : Handler Bool := do
  let w ← get
  if fd ∈ w.graph.allFds then pure false
  else if (w.graph.fdToValue fd).isSome then do
    -- `ht_put` has replaced the old value
    link fun g => { g with fdToValue := Function.update g.fdToValue fd (some value) }
    pure false
  else do
    link fun g => g.addFd fd value
    pure true

theorem meets_smAddFd {w : World} {fd : Nat} {value : Value} {Q : Bool → World → Prop}
    {E : Fault → Prop} : Meets (smAddFd fd value) w Q E ↔
      (fd ∈ w.graph.allFds → Q false w) ∧
      (fd ∉ w.graph.allFds → (w.graph.fdToValue fd).isSome → Q false { w with
        graph := { w.graph with fdToValue := Function.update w.graph.fdToValue fd (some value) } }) ∧
      (fd ∉ w.graph.allFds → w.graph.fdToValue fd = none →
        Q true { w with graph := w.graph.addFd fd value }) := by
  rw [smAddFd, meets_bind, meets_get]
  by_cases hfd : fd ∈ w.graph.allFds
  · rw [if_pos hfd, meets_pure]
    simp [hfd]
  rw [if_neg hfd]
  cases hvalue : w.graph.fdToValue fd with
  | none =>
    rw [if_neg (by simp), meets_bind, meets_link, meets_pure]
    simp [hfd]
  | some v =>
    rw [if_pos Option.isSome_some, meets_bind, meets_link, meets_pure]
    simp [hfd]

section Close

variable (env : Outside) (removeFd : Nat → Handler Bool)

/-- `if (fd > 0) self->remove_fd(self, fd)`. -/
def removeIfOpen (fd : Nat) : Handler Unit :=
  if 0 < fd then do
    let _ ← removeFd fd
    pure ()
  else pure ()

/-- The pointer of a websocket to a file connection that is closed. -/
def forgetFile (s f : Ptr) (iws : Iws) : Handler Unit :=
  if iws.ifs = some f then link fun g => g.setIws s { iws with ifs := none } else pure ()

def iwdpIfsClose (f : Ptr) : Handler Bool := do
  let ifs ← getIfs f
  match ifs.iws with
  | none => do
      link fun g => g.freeIfs f
      pure true
  | some s => do
      let iws ← getClient s
      forgetFile s f iws
      link fun g => g.freeIfs f
      removeIfOpen removeFd iws.wsFd
      pure true

/-- The page of a websocket that is closed. -/
def closePage (s : Ptr) : Option Ptr → Handler Unit
  | none => pure ()
  | some q => do
      let ipage ← getIpage q
      if ipage.senderId.isSome ∧ ipage.iws = some s then do
        let _ ← iwdpStopDevtools env q
        pure ()
      else pure ()

/-- The entry of a websocket in the table of its port. -/
def unregisterIws (s : Ptr) (iws : Iws) : Handler Unit := do
  let iport ← getIport iws.iport
  if iport.wsIdToIws.lookup iws.wsId = some s then
    link fun g => g.setIport iws.iport
      { iport with wsIdToIws := iport.wsIdToIws.erase iws.wsId }
  else pure ()

/-- The file connection of a websocket that is closed. -/
def closeFile : Option Ptr → Handler Unit
  | none => pure ()
  | some f => do
      let ifs ← getIfs f
      link fun g => g.setIfs f { ifs with iws := none }
      removeIfOpen removeFd ifs.fsFd

def iwdpIwsClose (s : Ptr) : Handler Bool := do
  let iws ← getIws s
  closePage env s iws.ipage
  unregisterIws s iws
  closeFile removeFd iws.ifs
  link fun g => g.freeIws s
  pure true

/-- `iwdp_ipage_free` on all pages of an inspector. -/
def freePages (ipages : List Ptr) : Handler Unit :=
  ipages.forM fun q => do
    let _ ← getIpage q
    link fun g => g.freeIpage q

/-- The pointer of a port to an inspector that is closed. -/
def forgetIwi : Option Ptr → Handler Unit
  | none => pure ()
  | some p => do
      let iport ← getIport p
      link fun g => g.setIport p { iport with iwi := none }

/-- The port of an inspector that is closed. -/
def closePort : Option Ptr → Handler Unit
  | none => pure ()
  | some p => do
      let iport ← getIport p
      removeIfOpen removeFd iport.sFd

def iwdpIwiClose (i : Ptr) : Handler Bool := do
  let iwi ← getIwi i
  forgetIwi iwi.iport
  link fun g => g.setIwi i { iwi with pageNumToIpage := ∅ }
  freePages iwi.pageNumToIpage.values
  link fun g => g.freeIwi i
  closePort removeFd iwi.iport
  pure true

/-- The first loop of `iwdp_iport_close`. -/
def closeClients (iwss : List Ptr) : Handler Unit :=
  iwss.forM fun s => do
    let iws ← getIws s
    removeIfOpen removeFd iws.wsFd

/-- The inspector of a port that is closed. -/
def closeIwi (p : Ptr) : Handler Unit := do
  let iport ← getIport p
  match iport.iwi with
  | none => pure ()
  | some i => do
      let iwi ← getIwi i
      link fun g => g.setIwi i { iwi with iport := none }
      link fun g => g.setIport p { iport with iwi := none }
      removeIfOpen removeFd iwi.wiFd

/-- The end of `iwdp_iport_close`: a sticky port stays, for its device may come back. -/
def keepOrFree (p : Ptr) : Handler Unit := do
  let iport ← getIport p
  if iport.isSticky then link fun g => g.setIport p { iport with sFd := 0 }
  else
    link fun g => { g.freeIport p with
      deviceIdToIport := g.deviceIdToIport.erase iport.deviceId }

def iwdpIportClose (p : Ptr) : Handler Bool := do
  let iport ← getIport p
  let w ← get
  if w.graph.deviceIdToIport.lookup iport.deviceId ≠ some p then pure false
  else do
    closeClients removeFd iport.wsIdToIws.values
    let iport ← getIport p
    link fun g => g.setIport p { iport with wsIdToIws := ∅ }
    closeIwi removeFd p
    keepOrFree p
    pure true

/-- `iwdp_on_close`; `iwdp_idl_close` does nothing. -/
def iwdpOnClose : Value → Handler Bool
  | .idl => pure true
  | .iport p => iwdpIportClose removeFd p
  | .iwi i => iwdpIwiClose removeFd i
  | .iws s => iwdpIwsClose env removeFd s
  | .ifs f => iwdpIfsClose removeFd f

end Close

/-- `sm_remove_fd`, for so many calls inside of each other. -/
def removeFdAt (env : Outside) : Nat → Nat → Handler Bool
  | 0, _ => throw .depth
  | levels + 1, fd => do
      let w ← get
      if fd ∈ w.graph.allFds then
        match w.graph.fdToValue fd with
        | none => throw .reentered
        | some value => do
            link fun g => g.takeValue fd
            let ret ← iwdpOnClose env (removeFdAt env levels) value
            link fun g => g.clearFd fd
            pure ret
      else pure false

def smRemoveFd (env : Outside) (fd : Nat) : Handler Bool := removeFdAt env 4 fd

end IDeviceStack.WebkitProxy.Iwdp
