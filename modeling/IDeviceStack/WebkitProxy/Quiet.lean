/-
# `WebkitProxy.Quiet` — handlers that leave the objects alone

Most of what the proxy does for a browser sends something and changes the protocol state
of one websocket; the objects and the pointers between them stay as they are.

**Proved here.**  `Sound`.
-/
import IDeviceStack.WebkitProxy.Proxy

namespace IDeviceStack.WebkitProxy.Iwdp

open Lib Libplist

/-- Neither a listing nor a mark. -/
def Out.IsOther : Out → Prop
  | .rpc _ (.forwardGetListing _ _) _ => False
  | .known _ _ => False
  | .unknown _ _ => False
  | _ => True

/-- The graph is the one of `w`, what was sent since is no listing, and what was late is late. -/
structure Quiet (w w' : World) : Prop where
  graph : w'.graph = w.graph
  out : ∃ new, w'.out = w.out ++ new ∧ ∀ o ∈ new, o.IsOther
  late : ∀ s, (w.ws s).Late → (w'.ws s).Late

theorem Quiet.refl (w : World) : Quiet w w :=
  ⟨rfl, ⟨[], (List.append_nil _).symm, nofun⟩, fun _ h => h⟩

theorem Quiet.emit {w w' : World} (h : Quiet w w') {o : Out} (ho : o.IsOther) :
    Quiet w { w' with out := w'.out ++ [o] } := by
  obtain ⟨hg, ⟨new, hnew, hother⟩, hlate⟩ := h
  refine ⟨hg, ⟨new ++ [o], by rw [← List.append_assoc, ← hnew], fun o' ho' => ?_⟩, hlate⟩
  rcases List.mem_append.mp ho' with ho' | ho'
  · exact hother o' ho'
  · rw [List.mem_singleton.mp ho']
    exact ho

theorem Quiet.tick {w w' : World} (h : Quiet w w') : Quiet w { w' with tick := w'.tick + 1 } :=
  ⟨h.graph, h.out, h.late⟩

theorem Quiet.setWs {w w' : World} (h : Quiet w w') {s : Ptr} {conn : WsConn}
    (hconn : (w.ws s).Late → conn.Late) :
    Quiet w { w' with ws := Function.update w'.ws s conn } := by
  refine ⟨h.graph, h.out, fun s' hs' => ?_⟩
  by_cases hss : s' = s
  · subst hss
    show (Function.update w'.ws s' conn s').Late
    rw [Function.update_self]
    exact hconn hs'
  · show (Function.update w'.ws s conn s').Late
    rw [Function.update_of_ne hss]
    exact h.late s' hs'

/-- The pointers of a graph that are stale, or `NULL` where they are followed, are faults in `E`;
so are the faults of a bad request. -/
structure Sound (E : Fault → Prop) (g : Graph) : Prop where
  portOfIws : ∀ {s iws}, g.iwss s = some iws → g.iports iws.iport = none → E .iportFreed
  iwiOfPort : ∀ {p iport i}, g.iports p = some iport → iport.iwi = some i → g.iwis i = none →
    E .iwiFreed
  portOfIwi : ∀ {i iwi p}, g.iwis i = some iwi → iwi.iport = some p → g.iports p = none →
    E .iportFreed
  pageOfIws : ∀ {s iws q}, g.iwss s = some iws → iws.ipage = some q → g.ipages q = none →
    E .ipageFreed
  listedPage : ∀ {i iwi q}, g.iwis i = some iwi → q ∈ iwi.pageNumToIpage.values →
    g.ipages q = none → E .ipageFreed
  listedPort : ∀ {p}, p ∈ g.deviceIdToIport.values → g.iports p = none → E .iportFreed
  listedIws : ∀ {p iport k s}, g.iports p = some iport → iport.wsIdToIws.lookup k = some s →
    g.iwss s = none → E .iwsFreed
  request : ∀ {f}, f ∈ [Fault.null, .noString, .assertion, .overrun, .exited] → E f

theorem Sound.all (g : Graph) : Sound (fun _ => True) g where
  portOfIws _ _ := trivial
  iwiOfPort _ _ _ := trivial
  portOfIwi _ _ _ := trivial
  pageOfIws _ _ _ := trivial
  listedPage _ _ _ := trivial
  listedPort _ _ := trivial
  listedIws _ _ _ := trivial
  request _ := trivial

theorem Table.mem_values {κ : Type} [DecidableEq κ] {t : Table κ} {k : κ} {q : Ptr}
    (h : t.lookup k = some q) : q ∈ t.values :=
  List.mem_map.mpr ⟨⟨k, q⟩, AList.mem_lookup_iff.mp h, rfl⟩

theorem Table.exists_of_mem_values {κ : Type} [DecidableEq κ] {t : Table κ} {q : Ptr}
    (h : q ∈ t.values) : ∃ k, t.lookup k = some q := by
  obtain ⟨⟨k, v⟩, hmem, rfl⟩ := List.mem_map.mp h
  exact ⟨k, AList.mem_lookup_iff.mpr hmem⟩

section Rules

variable {α β : Type} {w₀ : World} {E : Fault → Prop}

theorem quiet_follow_bind {heap : Graph → Ptr → Option α} {gone : Fault} {p : Ptr}
    {f : α → Handler β} (hgone : heap w₀.graph p = none → E gone)
    (hf : ∀ a, heap w₀.graph p = some a → Preserves (Quiet w₀) E (f a)) :
    Preserves (Quiet w₀) E (follow heap gone p >>= f) := by
  intro w hw
  rw [meets_bind, meets_follow, hw.graph]
  exact ⟨fun a ha => hf a ha w hw, hgone⟩

theorem quiet_notNull_bind {o : Option α} {f : α → Handler β} (hnull : E .null)
    (hf : ∀ a, o = some a → Preserves (Quiet w₀) E (f a)) :
    Preserves (Quiet w₀) E (notNull o >>= f) := by
  intro w hw
  rw [meets_bind, meets_notNull]
  exact ⟨fun a ha => hf a ha w hw, fun _ => hnull⟩

theorem quiet_ask : Preserves (Quiet w₀) E ask := fun _ hw => hw.tick

theorem quiet_modifyWs {s : Ptr} {f : WsConn → WsConn}
    (hf : ∀ conn, (w₀.ws s).Late → conn.Late → (f conn).Late) :
    Preserves (Quiet w₀) E (modifyWs s f) :=
  fun _ hw => hw.setWs fun hs => hf _ hs (hw.late s hs)

theorem quiet_emit {o : Out} (ho : o.IsOther) : Preserves (Quiet w₀) E (emit o) :=
  fun _ hw => hw.emit ho

end Rules

/-! ## Sending -/

section Handlers

variable {w₀ : World} {E : Fault → Prop} (env : Outside) {s i q : Ptr}

theorem quiet_sendFd (fd : Nat) (bytes : List UInt8) : Preserves (Quiet w₀) E (sendFd env fd bytes) :=
  quiet_ask.bind fun n =>
    (quiet_emit (show Out.IsOther (.sent fd bytes (env.sends n)) from trivial)).bind fun _ =>
      preserves_pure _

theorem quiet_rpcSendMsg {rpc : Rpc} (hrpc : ∀ ok, (Out.rpc i rpc ok).IsOther)
    (hi : w₀.graph.iwis i = none → E .iwiFreed) (hE : Sound E w₀.graph) :
    Preserves (Quiet w₀) E (rpcSendMsg env i rpc) := by
  refine quiet_follow_bind hi fun iwi hiwi => ?_
  refine quiet_notNull_bind (hE.request (by simp)) fun p hp => ?_
  refine quiet_follow_bind (hE.portOfIwi hiwi hp) fun _ _ => ?_
  exact quiet_ask.bind fun n => (quiet_emit (hrpc _)).bind fun _ => preserves_pure _

theorem quiet_sendForwardSocketSetup (c : Option Str) (appId : Str) (pageId : Nat)
    (senderId : Option Str) (hi : w₀.graph.iwis i = none → E .iwiFreed) (hE : Sound E w₀.graph) :
    Preserves (Quiet w₀) E (sendForwardSocketSetup env i c appId pageId senderId) := by
  unfold sendForwardSocketSetup
  split
  · exact quiet_rpcSendMsg env (fun _ => trivial) hi hE
  · exact preserves_pure _

theorem quiet_sendForwardSocketData (c : Option Str) (appId : Str) (pageId : Nat)
    (senderId : Option Str) (data : Option (List UInt8))
    (hi : w₀.graph.iwis i = none → E .iwiFreed) (hE : Sound E w₀.graph) :
    Preserves (Quiet w₀) E (sendForwardSocketData env i c appId pageId senderId data) := by
  unfold sendForwardSocketData
  split
  · exact quiet_rpcSendMsg env (fun _ => trivial) hi hE
  · exact preserves_pure _

theorem quiet_sendForwardDidClose (c : Option Str) (appId : Str) (pageId : Nat)
    (senderId : Option Str) (hi : w₀.graph.iwis i = none → E .iwiFreed) (hE : Sound E w₀.graph) :
    Preserves (Quiet w₀) E (sendForwardDidClose env i c appId pageId senderId) := by
  unfold sendForwardDidClose
  split
  · exact quiet_rpcSendMsg env (fun _ => trivial) hi hE
  · exact preserves_pure _

theorem quiet_sendReportIdentifier (c : Option Str) (hi : w₀.graph.iwis i = none → E .iwiFreed)
    (hE : Sound E w₀.graph) : Preserves (Quiet w₀) E (sendReportIdentifier env i c) := by
  unfold sendReportIdentifier
  split
  · exact quiet_rpcSendMsg env (fun _ => trivial) hi hE
  · exact preserves_pure _

variable (hs : w₀.graph.iwss s = none → E .iwsFreed) (hE : Sound E w₀.graph)

include hs hE

theorem quiet_iwdpSendData (bytes : List UInt8) : Preserves (Quiet w₀) E (iwdpSendData env s bytes) :=
  quiet_follow_bind hs fun _ hiws =>
    quiet_follow_bind (hE.portOfIws hiws) fun _ _ => quiet_sendFd env _ _

theorem quiet_sendFrame (a : SendFrame) : Preserves (Quiet w₀) E (sendFrame env s a) := by
  refine quiet_follow_bind hs fun _ _ w hw => ?_
  rw [meets_bind, meets_get]
  refine Meets.bind (Q := fun _ => Quiet w₀) (hw.setWs fun hlate => hw.late s hlate) ?_
  intro _
  split
  · exact preserves_throw (hE.request (by simp))
  · split
    · exact quiet_iwdpSendData env hs hE _
    · exact preserves_pure _

/-! ## Requests -/

theorem quiet_iwdpSendHttp (isHead : Bool) (status resource : String) (content : Str) :
    Preserves (Quiet w₀) E (iwdpSendHttp env s isHead status resource content) :=
  quiet_iwdpSendData env hs hE _

theorem quiet_iwdpOnNotFound (isHead : Bool) (resource : Str) (details : String) :
    Preserves (Quiet w₀) E (iwdpOnNotFound env s isHead resource details) :=
  quiet_iwdpSendData env hs hE _

omit hs in
theorem quiet_visitListed {p : Ptr} {iport : Iport} (hiport : w₀.graph.iports p = some iport) :
    Preserves (Quiet w₀) E (visitListed iport) := by
  unfold visitListed
  split
  · refine quiet_notNull_bind (hE.request (by simp)) fun i hi => ?_
    refine quiet_follow_bind (hE.iwiOfPort hiport hi) fun iwi hiwi => Preserves.forM fun q hq => ?_
    exact quiet_follow_bind (hE.listedPage hiwi hq) fun _ _ => preserves_pure _
  · intro w hw
    rw [meets_bind, meets_get, hw.graph]
    refine Preserves.forM (fun p hp => ?_) w hw
    exact quiet_follow_bind (hE.listedPort hp) fun _ _ => preserves_pure _

theorem quiet_iwdpOnListRequest (isHead wantJson : Bool) (host : Option Str) :
    Preserves (Quiet w₀) E (iwdpOnListRequest env s isHead wantJson host) :=
  quiet_follow_bind hs fun _ hiws =>
    quiet_follow_bind (hE.portOfIws hiws) fun _ hiport =>
      (quiet_visitListed hE hiport).bind fun _ =>
        quiet_ask.bind fun _ => quiet_iwdpSendHttp env hs hE _ _ _ _

theorem quiet_sendReads (reads : List (List UInt8)) : Preserves (Quiet w₀) E (sendReads env s reads) := by
  induction reads with
  | nil => exact preserves_pure _
  | cons bytes reads ih =>
    unfold sendReads
    split
    · exact preserves_pure _
    · refine (quiet_iwdpSendData env hs hE _).bind fun ok => ?_
      split
      · exact ih.bind fun _ => preserves_pure _
      · exact preserves_pure _

theorem quiet_iwdpOnStaticRequestForFile (isHead : Bool) (resource fePath : Str) :
    Preserves (Quiet w₀) E (iwdpOnStaticRequestForFile env s isHead resource fePath) := by
  refine quiet_follow_bind hs fun iws hiws => ?_
  refine quiet_follow_bind (hE.portOfIws hiws) fun _ _ => ?_
  split
  · exact quiet_iwdpSendHttp env hs hE _ _ _ _
  · refine quiet_ask.bind fun n => ?_
    split
    · exact quiet_iwdpOnNotFound env hs hE _ _ _
    · exact quiet_iwdpSendHttp env hs hE _ _ _ _
    · refine (quiet_iwdpSendData env hs hE _).bind fun ok => ?_
      split
      · exact preserves_pure _
      · exact (quiet_sendReads env hs hE _).bind fun _ => preserves_pure _

theorem quiet_wsSendUpgrade (http : Http) : Preserves (Quiet w₀) E (wsSendUpgrade env s http) := by
  refine preserves_get.bind fun w => ?_
  split
  · dsimp only
    split
    · exact Preserves.bind (quiet_modifyWs fun _ _ h => h) fun _ => preserves_pure _
    · exact Preserves.bind (quiet_modifyWs fun _ _ h => h) fun _ => quiet_iwdpSendData env hs hE _
  · exact preserves_pure _

/-! ## Frames -/

theorem quiet_onBinary (frame : Frame) : Preserves (Quiet w₀) E (onBinary env s frame) := by
  unfold onBinary
  split
  · exact preserves_pure _
  split
  · exact quiet_sendFrame env hs hE _
  refine quiet_follow_bind hs fun iws hiws => ?_
  refine quiet_follow_bind (hE.portOfIws hiws) fun iport hiport => ?_
  split
  · exact quiet_sendFrame env hs hE _
  · next i hi =>
    refine quiet_follow_bind (hE.iwiOfPort hiport hi) fun iwi hiwi => ?_
    split
    · refine Preserves.bind ?_ fun _ => quiet_sendFrame env hs hE _
      unfold lostPage
      split
      · exact preserves_pure _
      split
      · exact preserves_pure _
      · next q hq =>
        exact quiet_follow_bind (hE.listedPage hiwi (Table.mem_values hq)) fun _ _ => preserves_pure _
    · next q hq =>
      refine quiet_follow_bind (hE.pageOfIws hiws hq) fun ipage _ => ?_
      exact quiet_sendForwardSocketData env _ _ _ _ _ (hE.iwiOfPort hiport hi) hE

theorem quiet_iwdpOnFrame (frame : Frame) : Preserves (Quiet w₀) E (iwdpOnFrame env s frame) := by
  unfold iwdpOnFrame
  split
  · exact quiet_onBinary env hs hE _
  split
  · exact quiet_sendFrame env hs hE _
  split
  · exact quiet_sendFrame env hs hE _
  split
  · exact preserves_pure _
  · exact preserves_pure _

omit hs hE

theorem quiet_endWs (n : Nat) : Preserves (Quiet w₀) E (endWs s n) :=
  Preserves.bind (quiet_modifyWs fun _ _ _ => .inr rfl) fun _ => preserves_pure _

theorem quiet_wsRecvRequest (hearly : ¬ (w₀.ws s).Late) (u : List UInt8) :
    Preserves (Quiet w₀) E (wsRecvRequest s u) := by
  refine preserves_get.bind fun w => ?_
  split
  · exact preserves_pure _
  · refine Preserves.bind (quiet_modifyWs fun _ _ h => h) fun _ => ?_
    split
    · exact Preserves.bind (quiet_modifyWs fun _ h => absurd h hearly) fun _ => preserves_pure _
    · exact quiet_endWs _

theorem quiet_recvFrameLength (u : List UInt8) : Preserves (Quiet w₀) E (recvFrameLength env s u) := by
  refine preserves_get.bind fun w => ?_
  split
  · exact Preserves.bind (quiet_modifyWs fun _ _ h => h) fun _ => quiet_endWs _
  · refine Preserves.bind (quiet_modifyWs fun _ _ h => h) fun _ => ?_
    split
    · exact preserves_pure _
    · exact Preserves.bind (quiet_modifyWs fun _ _ h => h) fun _ => preserves_pure _

include hs hE

theorem quiet_recvFrame (u : List UInt8) : Preserves (Quiet w₀) E (recvFrame env s u) := by
  refine preserves_get.bind fun w => ?_
  dsimp only
  split
  · exact preserves_pure _
  split
  · exact Preserves.bind (quiet_modifyWs fun _ _ h => h) fun _ => quiet_endWs _
  · exact preserves_throw (hE.request (by simp))
  · refine Preserves.bind (quiet_modifyWs fun _ _ h => h) fun _ => ?_
    refine (quiet_iwdpOnFrame env hs hE _).bind fun ok => ?_
    unfold afterOnFrame
    split
    · exact quiet_endWs _
    · refine Preserves.bind (quiet_modifyWs fun _ _ h => h) fun _ => ?_
      split
      · exact quiet_endWs _
      · exact preserves_pure _

end Handlers

end IDeviceStack.WebkitProxy.Iwdp
