/-
# `WebkitProxy.Turns` — what a browser can do to the objects

`ws_recv_loop` takes one request or one frame after the other.  Two of these change the
graph: a request for a page may link it, and one for a static page may open a connection
to the file server.

**Proved here.**  An invariant that allows these two, and does not see the rest, is kept
by the whole loop (`wsOnRecv_inv`).  Between a request and the answer of the websocket
the invariant may be weaker: `Free` is for a websocket that has no page yet, and `Mid` for
one that has got a page but does not read frames.
-/
import IDeviceStack.WebkitProxy.Quiet

namespace IDeviceStack.WebkitProxy.Iwdp

open Lib Libplist Function

/-- The request whose headers stand at the beginning of `u`. -/
def requestOf (env : Outside) (w : World) (s : Ptr) (u : List UInt8) : Http :=
  (wsReadHeaders env.beyond (w.ws s).http (u.drop 2)).1

/-- Its resource, as the callbacks get it. -/
def resourceOf (env : Outside) (w : World) (s : Ptr) (u : List UInt8) : Str :=
  (requestOf env w s u).resource.getD []

/-- The next turn hands a request to the callbacks. -/
def Requests (w : World) (s : Ptr) (u : List UInt8) : Prop :=
  (w.ws s).phase = .readHttpHeaders ∧ (strnstr u (crlf ++ crlf)).isSome

/-- The next turn asks for a static page. -/
structure AsksStatic (env : Outside) (w : World) (s : Ptr) (u : List UInt8) : Prop where
  requests : Requests w s u
  plain : (requestOf env w s u).isWebsocket = false
  static : startsWith (resourceOf env w s u) "/devtools/" = true

/-! ## One turn -/

section Turn

variable (env : Outside) (s : Ptr) (Inv Free Mid : World → Prop) (E : Fault → Prop)
  (cond : World → List UInt8 → Prop)

/-- What the turns of the websocket `s` keep, where `cond` holds before each turn. -/
structure TurnRules : Prop where
  quiet : ∀ {w w'}, Inv w → Quiet w w' → Inv w'
  freeQuiet : ∀ {w w'}, Free w → Quiet w w' → Free w'
  midQuiet : ∀ {w w'}, Mid w → Quiet w w' → Mid w'
  free : ∀ {w}, Inv w → ¬ (w.ws s).Late → Free w
  again : ∀ {w conn}, Free w → Inv { w with ws := update w.ws s conn }
  mid : ∀ {w}, Inv w → Mid w
  late : ∀ {w}, Mid w → (w.ws s).Late → Inv w
  sound : ∀ {w}, Mid w → Sound E w.graph
  live : ∀ {w}, Mid w → w.graph.iwss s = none → E .iwsFreed
  devtools : ∀ {w} resource, Free w →
    Meets (iwdpOnDevtoolsRequest env s resource) w (fun _ => Mid) E
  static : ∀ {w w' u} isHead, cond w u → AsksStatic env w s u → Free w' → w'.graph = w.graph →
    w'.tick = w.tick →
    Meets (iwdpOnStaticRequest env s isHead (resourceOf env w s u)) w' (fun _ => Free) E

variable {env s Inv Free Mid E cond} {w : World} {u : List UInt8}

namespace TurnRules

variable (rules : TurnRules env s Inv Free Mid E cond)

include rules

theorem weaken (h : Free w) : Mid w := by
  have hinv := @rules.again w (w.ws s) h
  rw [update_eq_self] at hinv
  exact rules.mid hinv

theorem of_quiet {α : Type} {m : Handler α} (h : Mid w)
    (hm : ∀ w0 : World, (w0.graph.iwss s = none → E .iwsFreed) → Sound E w0.graph →
      Preserves (Quiet w0) E m) : Meets m w (fun _ => Quiet w) E :=
  hm w (rules.live h) (rules.sound h) w (Quiet.refl w)

theorem free_page {m : Handler Bool} (h : Free w)
    (hm : ∀ w0 : World, (w0.graph.iwss s = none → E .iwsFreed) → Sound E w0.graph →
      Preserves (Quiet w0) E m) : Meets (page m) w (fun _ => Free) E :=
  Meets.bind (rules.of_quiet (rules.weaken h) hm) fun _ _ hq => rules.freeQuiet h hq

theorem onPlainRequest_free (isHead : Bool) (host : Option Str) (resource : Str) (h : Free w)
    (hstatic : startsWith resource "/devtools/" = true →
      Meets (iwdpOnStaticRequest env s isHead resource) w (fun _ => Free) E) :
    Meets (onPlainRequest env s isHead resource host) w (fun _ => Free) E := by
  unfold onPlainRequest
  split
  · exact rules.free_page h fun _ hs hE => quiet_iwdpOnListRequest env hs hE _ _ _
  split
  · exact rules.free_page h fun _ hs hE => quiet_iwdpOnListRequest env hs hE _ _ _
  split
  · next hdevtools => exact hstatic hdevtools
  split
  · have hE := rules.sound (rules.weaken h)
    have hsend := rules.of_quiet (rules.weaken h) fun _ hs hE =>
      quiet_iwdpSendHttp env hs hE isHead "200 OK" ".html" (ascii "close proxy")
    exact hsend.bind fun _ _ _ => hE.request (by simp)
  split
  · have hask : Meets ask w (fun _ => Quiet w) E := quiet_ask w (Quiet.refl w)
    refine hask.bind fun n w' hq => ?_
    exact rules.free_page (rules.freeQuiet h hq) fun _ hs hE => quiet_iwdpSendHttp env hs hE _ _ _ _
  · exact rules.free_page h fun _ hs hE => quiet_iwdpOnNotFound env hs hE _ _ _

theorem iwdpOnHttpRequest_mid (method resource : Str) (host : Option Str) (isWebsocket : Bool)
    (h : Free w)
    (hstatic : isWebsocket = false → startsWith resource "/devtools/" = true → ∀ isHead,
      Meets (iwdpOnStaticRequest env s isHead resource) w (fun _ => Free) E) :
    Meets (iwdpOnHttpRequest env s method resource host isWebsocket) w
      (fun _ w' => Mid w' ∧ (isWebsocket = false → Free w')) E := by
  have hfree : ∀ {m : Handler (Bool × Bool)}, Meets m w (fun _ => Free) E →
      Meets m w (fun _ w' => Mid w' ∧ (isWebsocket = false → Free w')) E := fun hm =>
    hm.post fun _ _ hw => ⟨rules.weaken hw, fun _ => hw⟩
  have hdecode : Meets (decode resource) w (fun _ => Quiet w) E := by
    unfold decode
    split
    · exact (rules.sound (rules.weaken h)).request (by simp)
    · exact Quiet.refl w
  unfold iwdpOnHttpRequest
  dsimp only
  split
  · refine hfree (hdecode.bind fun _ w1 hq1 => ?_)
    have hask : Meets ask w1 (fun _ => Quiet w1) E := quiet_ask w1 (Quiet.refl w1)
    refine hask.bind fun n w2 hq2 => ?_
    exact rules.free_page (rules.freeQuiet (rules.freeQuiet h hq1) hq2)
      fun _ hs hE => quiet_iwdpSendHttp env hs hE _ _ _ _
  split
  · refine hfree (hdecode.bind fun _ w1 hq1 => ?_)
    exact rules.free_page (rules.freeQuiet h hq1)
      fun _ hs hE => quiet_iwdpSendHttp env hs hE _ _ _ _
  split
  · next hws =>
    split
    · refine Meets.bind (rules.devtools resource h) fun _ w' hmid => ⟨hmid, fun hno => ?_⟩
      rw [hws] at hno
      cases hno
    · exact hfree (rules.free_page h fun _ hs hE => quiet_iwdpOnNotFound env hs hE _ _ _)
  next hws =>
  split
  · exact hfree (rules.free_page h fun _ hs hE => quiet_iwdpOnNotFound env hs hE _ _ _)
  · refine hfree (rules.onPlainRequest_free _ host resource h fun hdevtools => ?_)
    exact hstatic (by simpa using hws) hdevtools _

theorem endWs_inv (n : Nat) (h : Mid w) : Meets (endWs s n) w (fun _ => Inv) E := by
  refine Meets.bind (Q := fun _ w' => Quiet w w' ∧ (w'.ws s).Late) ⟨?_, ?_⟩
    fun _ w' ⟨hq, hlate⟩ => rules.late (rules.midQuiet h hq) hlate
  · exact (Quiet.refl w).setWs fun _ => .inr rfl
  · show (update w.ws s _ s).Late
    rw [update_self]
    exact .inr rfl

theorem afterRequest_inv (http : Http) (n : Nat) (answer : Bool × Bool) (h : Mid w)
    (hfree : http.isWebsocket = false → Free w) :
    Meets (afterRequest env s http n answer) w (fun _ => Inv) E := by
  obtain ⟨ok, keepAlive⟩ := answer
  cases ok with
  | false => exact rules.endWs_inv n h
  | true =>
    unfold afterRequest
    dsimp only
    split
    · next hws =>
      split
      · exact rules.again (hfree (by simpa using hws))
      · exact rules.endWs_inv n h
    · have hupgrade := rules.of_quiet h fun _ hs hE => quiet_wsSendUpgrade env hs hE http
      refine hupgrade.bind fun ok w1 hq1 => ?_
      have h1 := rules.midQuiet h hq1
      split
      · refine Meets.bind (Q := fun _ w' => Quiet w1 w' ∧ (w'.ws s).Late) ⟨?_, ?_⟩
          fun _ w' ⟨hq, hlate⟩ => rules.late (rules.midQuiet h1 hq) hlate
        · exact (Quiet.refl w1).setWs fun _ => .inl rfl
        · show (update w1.ws s _ s).Late
          rw [update_self]
          exact .inl rfl
      · exact rules.endWs_inv n h1

theorem wsRecvHeaders_inv (h : Inv w) (hphase : (w.ws s).phase = .readHttpHeaders)
    (hcond : cond w u) : Meets (wsRecvHeaders env s u) w (fun _ => Inv) E := by
  rw [wsRecvHeaders, meets_bind, meets_get]
  split
  · exact h
  next hsome =>
  generalize hread : wsReadHeaders env.beyond (w.ws s).http (u.drop 2) = read
  obtain ⟨http, rest⟩ := read
  have hhttp : requestOf env w s u = http := congrArg Prod.fst hread
  have hearly : ¬ (w.ws s).Late := by
    rintro (hlate | hlate)
    · rw [hphase] at hlate
      cases hlate
    · rw [hphase] at hlate
      cases hlate
  have hq : Quiet w { w with ws := update w.ws s { w.ws s with http := http } } :=
    (Quiet.refl w).setWs id
  have hfree := rules.freeQuiet (rules.free h hearly) hq
  refine Meets.bind (Q := fun _ w' => w' = { w with
    ws := update w.ws s { w.ws s with http := http } }) (meets_modify.mpr rfl) ?_
  rintro - w' rfl
  refine Meets.bind (rules.iwdpOnHttpRequest_mid _ _ http.reqHost http.isWebsocket hfree ?_)
    fun answer w1 ⟨hmid, hfree1⟩ => rules.afterRequest_inv http _ answer hmid hfree1
  intro hplain hdevtools isHead
  have hresource : resourceOf env w s u = http.resource.getD [] :=
    congrArg (fun http => http.resource.getD []) hhttp
  have hasks : AsksStatic env w s u :=
    ⟨⟨hphase, Option.isSome_iff_ne_none.mpr (by simpa using hsome)⟩, hhttp ▸ hplain,
      hresource ▸ hdevtools⟩
  have hstatic := rules.static isHead hcond hasks hfree rfl rfl
  rw [hresource] at hstatic
  exact hstatic

/-- **A turn keeps the invariant.** -/
theorem wsTurn_inv (h : Inv w) (hcond : cond w u) : Meets (wsTurn env s u) w (fun _ => Inv) E := by
  have hlive := rules.live (rules.mid h)
  have hsound := rules.sound (rules.mid h)
  have hquiet : ∀ {m : Handler Next}, Preserves (Quiet w) E m → Meets m w (fun _ => Inv) E :=
    fun hm => (hm w (Quiet.refl w)).post fun _ _ hq => rules.quiet h hq
  rw [wsTurn, meets_bind, meets_get]
  split
  · next hphase =>
    refine hquiet (quiet_wsRecvRequest ?_ u)
    rintro (hlate | hlate)
    · rw [hphase] at hlate
      cases hlate
    · rw [hphase] at hlate
      cases hlate
  · next hphase => exact rules.wsRecvHeaders_inv h hphase hcond
  · split
    · exact hquiet (quiet_recvFrame env hlive hsound u)
    · exact hquiet (quiet_recvFrameLength env u)
  · exact h

end TurnRules

/-! ## The loop -/

/-- Every turn of the loop meets `cond` in the state before it. -/
def TurnsMeet (env : Outside) (s : Ptr) (cond : World → List UInt8 → Prop) :
    Nat → World → List UInt8 → Prop
  | 0, _, _ => True
  | fuel + 1, w, u => cond w u ∧ ∀ consumed w', wsTurn env s u w = .ok (.go consumed, w') →
      u.drop consumed ≠ [] → TurnsMeet env s cond fuel w' (u.drop consumed)

theorem TurnsMeet.of_forall (hcond : ∀ w u, cond w u) (fuel : Nat) :
    TurnsMeet env s cond fuel w u := by
  induction fuel generalizing w u with
  | zero => trivial
  | succ fuel ih => exact ⟨hcond w u, fun _ _ _ _ => ih⟩

theorem TurnRules.wsRecvLoop_inv (rules : TurnRules env s Inv Free Mid E cond) (fuel : Nat)
    (h : Inv w) (hmeet : TurnsMeet env s cond fuel w u) :
    Meets (wsRecvLoop env s fuel u) w (fun _ => Inv) E := by
  induction fuel generalizing w u with
  | zero => exact h
  | succ fuel ih =>
    obtain ⟨hcond, hnext⟩ := hmeet
    refine Meets.bind (rules.wsTurn_inv h hcond).result fun next w1 ⟨h1, hturn⟩ => ?_
    cases next with
    | wait => exact h1
    | halt consumed => exact h1
    | go consumed =>
      dsimp only
      split
      · exact h1
      · next hrest =>
        exact ih h1 (hnext consumed w1 hturn (by simpa using hrest))

/-- **What a browser sends keeps the invariant.** -/
theorem TurnRules.wsOnRecv_inv (rules : TurnRules env s Inv Free Mid E cond) (buf : List UInt8)
    (h : Inv w)
    (hmeet : TurnsMeet env s cond (loopFuel ((w.ws s).input ++ buf)) w ((w.ws s).input ++ buf)) :
    Meets (wsOnRecv env s buf) w (fun _ => Inv) E := by
  rw [wsOnRecv, meets_bind, meets_getIws]
  refine ⟨fun _ _ => ?_, rules.live (rules.mid h)⟩
  rw [meets_bind, meets_get]
  refine Meets.bind (rules.wsRecvLoop_inv _ h hmeet) fun r w1 h1 => ?_
  exact rules.quiet h1 ((Quiet.refl w1).setWs id)

end Turn

end IDeviceStack.WebkitProxy.Iwdp
