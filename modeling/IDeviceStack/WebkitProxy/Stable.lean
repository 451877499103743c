/-
# `WebkitProxy.Stable` — what only a listing changes

A page gets its number, its application and its id when a listing names it for the first
time, and no other step of the proxy makes pages.

**Proved here.**  A property of the inspectors and the pages that holds on when pages and
inspectors go, when an inspector without pages comes, and when anything else of them
changes (`Stable`), is kept by every message that is no listing.
-/
import IDeviceStack.WebkitProxy.Apps

namespace IDeviceStack.WebkitProxy.Iwdp

open Lib Libplist

/-- A property that only a listing can break. -/
class Stable (N : Graph → Prop) : Prop where
  same : ∀ {g g' : Graph}, N g → g'.iwis = g.iwis → g'.ipages = g.ipages → g.fresh ≤ g'.fresh → N g'
  setIpage : ∀ {g : Graph} {q : Ptr} {ipage ipage' : Ipage}, N g → g.ipages q = some ipage →
    ipage'.pageNum = ipage.pageNum → ipage'.appId = ipage.appId → ipage'.pageId = ipage.pageId →
    N (g.setIpage q ipage')
  setIwi : ∀ {g : Graph} {i : Ptr} {iwi iwi' : Iwi}, N g → g.iwis i = some iwi →
    iwi'.maxPageNum = iwi.maxPageNum →
    (∀ n q, iwi'.pageNumToIpage.lookup n = some q → iwi.pageNumToIpage.lookup n = some q) →
    N (g.setIwi i iwi')
  freeIpage : ∀ {g : Graph} (q : Ptr), N g → N (g.freeIpage q)
  freeIwi : ∀ {g : Graph} (i : Ptr), N g → N (g.freeIwi i)
  newIwi : ∀ {g : Graph} {iwi : Iwi}, N g → iwi.pageNumToIpage = ∅ →
    N (Graph.setIwi { g with fresh := g.fresh + 1 } g.fresh iwi)

/-- Nothing at all is always kept. -/
instance : Stable fun _ => True where
  same _ _ _ _ := trivial
  setIpage _ _ _ _ _ := trivial
  setIwi _ _ _ _ := trivial
  freeIpage _ _ := trivial
  freeIwi _ _ := trivial
  newIwi _ _ := trivial

section Messages

variable {N : Graph → Prop} [Stable N] {env : Outside} {i q : Ptr}

/-- The property as one of the state. -/
abbrev OfGraph (N : Graph → Prop) : World → Prop := fun w => N w.graph

omit [Stable N] in
theorem stable_same_graph {α : Type} {m : Handler α}
    (hm : ∀ w, Meets m w (fun _ w' => w'.graph = w.graph) AnyFault) :
    Preserves (OfGraph N) AnyFault m :=
  fun w h => (hm w).post fun _ _ hg => by
    show N _
    rw [hg]
    exact h

omit [Stable N] in
theorem stable_of_quiet {α : Type} {m : Handler α}
    (hm : ∀ w0, Preserves (Quiet w0) AnyFault m) : Preserves (OfGraph N) AnyFault m :=
  stable_same_graph fun w => (hm w w (Quiet.refl w)).post fun _ _ hq => hq.graph

theorem stable_modifyIwi {f : Iwi → Iwi} (hmax : ∀ iwi, (f iwi).maxPageNum = iwi.maxPageNum)
    (hpages : ∀ iwi n q, (f iwi).pageNumToIpage.lookup n = some q →
      iwi.pageNumToIpage.lookup n = some q) :
    Preserves (OfGraph N) AnyFault (modifyIwi i f) := by
  intro w h
  rw [modifyIwi, meets_bind, meets_getIwi]
  exact ⟨fun iwi hi => Stable.setIwi h hi (hmax iwi) (hpages iwi), fun _ => trivial⟩

theorem stable_iwdpStopDevtools : Preserves (OfGraph N) AnyFault (iwdpStopDevtools env q) := by
  intro w h
  rw [iwdpStopDevtools, meets_bind, meets_getIpage]
  refine ⟨fun ipage hq => ?_, fun _ => trivial⟩
  split
  · exact h
  next s _ =>
  rw [meets_bind, meets_getOwner]
  refine ⟨fun iws _ => ?_, fun _ => trivial⟩
  split
  · exact h
  split
  · exact h
  rw [meets_bind, meets_getIport]
  refine ⟨fun iport _ => ?_, fun _ => trivial⟩
  split
  · exact h
  refine (quiet_tellClosed w (Quiet.refl w)).bind fun _ w1 hq1 => ?_
  rw [meets_bind, meets_link, meets_bind, meets_link, meets_pure]
  have h1 : N w1.graph := by
    rw [hq1.graph]
    exact h
  have hpage : w1.graph.ipages q = some ipage := by rw [hq1.graph, hq]
  have h2 : N (w1.graph.setIws s { iws with ipage := none, pageNum := 0 }) :=
    Stable.same h1 rfl rfl (Nat.le_refl _)
  exact Stable.setIpage h2 hpage rfl rfl rfl

theorem lookup_of_erase {t : Table Nat} {k n : Nat} {q : Ptr} (h : (t.erase k).lookup n = some q) :
    n ≠ k ∧ t.lookup n = some q := by
  by_cases hnk : n = k
  · subst hnk
    rw [AList.lookup_erase] at h
    cases h
  · rw [AList.lookup_erase_ne hnk] at h
    exact ⟨hnk, h⟩

theorem stable_dropPage (pageNum : Nat) :
    Preserves (OfGraph N) AnyFault (dropPage env i q pageNum) := by
  refine stable_iwdpStopDevtools.bind fun _ => Preserves.bind ?_ fun _ w h => ?_
  · exact stable_modifyIwi (fun _ => rfl) fun _ _ _ hn => (lookup_of_erase hn).2
  · exact Stable.freeIpage q h

theorem stable_iwdpRemoveAppId (appId : Str) :
    Preserves (OfGraph N) AnyFault (iwdpRemoveAppId env i appId) := by
  intro w h
  rw [iwdpRemoveAppId, meets_bind, meets_getIwi]
  refine ⟨fun iwi hi => ?_, fun _ => trivial⟩
  split
  · exact h
  rw [meets_bind, meets_link]
  refine Preserves.bind (Preserves.forM fun q _ => ?_) (fun _ => preserves_pure _) _
    (Stable.setIwi h hi rfl fun _ _ => id)
  intro w h
  rw [meets_bind, meets_getIpage]
  refine ⟨fun ipage _ => ?_, fun _ => trivial⟩
  split
  · exact stable_dropPage _ w h
  · exact h

omit [Stable N] in
theorem stable_sendForwardGetListing (c : Option Str) (appId : Str) :
    Preserves (OfGraph N) AnyFault (sendForwardGetListing env i c appId) := by
  unfold sendForwardGetListing
  split
  · exact stable_same_graph fun w => rpcSendMsg_told.post fun _ _ h => h.1
  · exact preserves_pure _

theorem stable_iwdpAddAppId (appId : Str) :
    Preserves (OfGraph N) AnyFault (iwdpAddAppId env i appId) := by
  intro w h
  rw [iwdpAddAppId, meets_bind, meets_getIwi]
  refine ⟨fun iwi hi => ?_, fun _ => trivial⟩
  split
  · exact h
  rw [meets_bind, meets_link, meets_bind, meets_emit]
  exact stable_sendForwardGetListing _ _ _ (Stable.setIwi h hi rfl fun _ _ => id)

theorem stable_rpcSetApp (app : RpcApp) : Preserves (OfGraph N) AnyFault (rpcSetApp env i app) := by
  unfold rpcSetApp
  split
  · exact preserves_throw trivial
  · exact stable_modifyIwi (fun _ => rfl) fun _ _ _ => id

theorem stable_report (listed : List RpcApp) :
    Preserves (OfGraph N) AnyFault (iwdpOnReportConnectedApplicationList env i listed) := by
  intro w h
  rw [iwdpOnReportConnectedApplicationList, meets_bind, meets_getIwi]
  refine ⟨fun iwi _ => ?_, fun _ => trivial⟩
  split
  · exact h
  refine Preserves.bind (Preserves.forM fun oa _ => ?_) (fun _ => Preserves.bind
    (Preserves.forM fun a _ => ?_) fun _ => preserves_pure _) w h
  · split
    · exact preserves_pure _
    · exact (stable_iwdpRemoveAppId oa).bind fun _ => preserves_pure _
  · exact (stable_rpcSetApp a).bind fun _ => (stable_iwdpAddAppId _).bind fun _ => preserves_pure _

theorem stable_onMessage {message : Message}
    (hmessage : ∀ appId pages, message ≠ .applicationSentListing appId pages) :
    Preserves (OfGraph N) AnyFault (onMessage env i message) := by
  cases message with
  | reportSetup =>
    refine stable_of_quiet fun w0 => quiet_follow_bind (fun _ => trivial) fun _ _ => ?_
    refine quiet_notNull_bind trivial fun _ _ => ?_
    exact quiet_follow_bind (fun _ => trivial) fun _ _ => preserves_pure _
  | reportConnectedApplicationList listed => exact stable_report listed
  | applicationConnected app =>
    exact (stable_rpcSetApp app).bind fun _ => stable_iwdpAddAppId _
  | applicationDisconnected app => exact stable_iwdpRemoveAppId _
  | applicationSentListing appId pages => exact absurd rfl (hmessage appId pages)
  | applicationSentData destId data =>
    refine stable_of_quiet fun w0 => quiet_follow_bind (fun _ => trivial) fun iwi _ => ?_
    refine quiet_notNull_bind trivial fun p _ => ?_
    refine quiet_follow_bind (fun _ => trivial) fun iport _ => ?_
    split
    · exact preserves_pure _
    · exact quiet_sendFrame env (fun _ => trivial) (Sound.all _) _
  | applicationUpdated appId destId =>
    refine (stable_iwdpRemoveAppId appId).bind fun ok => ?_
    split
    · exact stable_iwdpAddAppId destId
    · exact preserves_pure _
  | reportConnectedDriverList => exact preserves_pure _

end Messages

end IDeviceStack.WebkitProxy.Iwdp
