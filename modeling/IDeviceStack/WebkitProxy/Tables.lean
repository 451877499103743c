/-
# `WebkitProxy.Tables` — the tables of an inspector over a whole run

**Proved here.**  Whatever happens, `Tables` stays: messages, devices that come and go,
browsers and what they ask for, descriptors that fail.  Right after a list of
applications that is not empty, these are the ones that the inspector knows.
-/
import IDeviceStack.WebkitProxy.Stable
import IDeviceStack.WebkitProxy.Turns

namespace IDeviceStack.WebkitProxy.Iwdp

open Lib Libplist

/-! ## Watched descriptors -/

namespace Graph

variable {g : Graph} {fd fd' : Nat} {value v : Value}

theorem watched_iff : g.watched fd = some v ↔ fd ∈ g.allFds ∧ g.fdToValue fd = some v := by
  unfold watched
  split
  · next hfd => exact ⟨fun h => ⟨hfd, h⟩, And.right⟩
  · next hfd => exact ⟨nofun, fun h => absurd h.1 hfd⟩

theorem watched_takeValue (h : (g.takeValue fd).watched fd' = some v) : g.watched fd' = some v := by
  obtain ⟨hfd, hvalue⟩ := watched_iff.mp h
  exact watched_iff.mpr ⟨hfd, (update_none.mp hvalue).2⟩

theorem watched_clearFd (h : (g.clearFd fd).watched fd' = some v) : g.watched fd' = some v := by
  obtain ⟨hfd, hvalue⟩ := watched_iff.mp h
  exact watched_iff.mpr ⟨Finset.mem_of_mem_erase hfd, hvalue⟩

theorem watched_addFd (h : (g.addFd fd value).watched fd' = some v) :
    fd' = fd ∧ v = value ∨ g.watched fd' = some v := by
  obtain ⟨hfd, hvalue⟩ := watched_iff.mp h
  rcases update_some.mp hvalue with ⟨rfl, rfl⟩ | ⟨hne, hvalue⟩
  · exact .inl ⟨rfl, rfl⟩
  · exact .inr (watched_iff.mpr ⟨Finset.mem_of_mem_insert_of_ne hfd hne, hvalue⟩)

theorem watched_replace (hnot : fd ∉ g.allFds)
    (h : watched { g with fdToValue := Function.update g.fdToValue fd (some value) } fd' = some v) :
    g.watched fd' = some v := by
  obtain ⟨hfd, hvalue⟩ := watched_iff.mp h
  rcases update_some.mp hvalue with ⟨rfl, -⟩ | ⟨-, hvalue⟩
  · exact absurd hfd hnot
  · exact watched_iff.mpr ⟨hfd, hvalue⟩

end Graph

/-! ## Everything else -/

section Rest

/-- The tables agree, and something of the graph holds that only a listing can break. -/
structure Kept (N : Graph → Prop) (w : World) : Prop where
  tables : Tables w
  graph : N w.graph

variable {N : Graph → Prop} [Stable N] {env : Outside} {w w' : World}

omit [Stable N] in
theorem Preserves.kept {α : Type} {m : Handler α} (htables : Preserves Tables AnyFault m)
    (hgraph : Preserves (OfGraph N) AnyFault m) : Preserves (Kept N) AnyFault m :=
  fun w h => ((htables w h.tables).both (hgraph w h.graph)).post fun _ _ h' => ⟨h'.1, h'.2⟩

omit [Stable N] in
theorem Kept.quiet (h : Kept N w) (hq : Quiet w w') : Kept N w' :=
  ⟨h.tables.quiet hq, hq.graph ▸ h.graph⟩

omit [Stable N] in
theorem kept_of_quiet {α : Type} {m : Handler α} (hm : ∀ w0, Preserves (Quiet w0) AnyFault m) :
    Preserves (Kept N) AnyFault m :=
  fun w h => (hm w w (Quiet.refl w)).post fun _ _ hq => h.quiet hq

theorem Kept.of_same (h : Kept N w) (hiwis : w'.graph.iwis = w.graph.iwis)
    (hipages : w'.graph.ipages = w.graph.ipages) (hfresh : w.graph.fresh ≤ w'.graph.fresh)
    (hvalue : ∀ {fd i}, w'.graph.watched fd = some (.iwi i) → w.graph.watched fd = some (.iwi i))
    (hout : w'.out = w.out) : Kept N w' :=
  ⟨h.tables.of_same hiwis hipages hfresh hvalue hout, Stable.same h.graph hiwis hipages hfresh⟩

theorem Kept.setIwi {i : Ptr} {iwi iwi' : Iwi} (h : Kept N w) (hi : w.graph.iwis i = some iwi)
    (hconn : iwi.connectionId ≠ none → iwi'.connectionId ≠ none)
    (hmax : iwi'.maxPageNum = iwi.maxPageNum)
    (hpages : ∀ {n q}, iwi'.pageNumToIpage.lookup n = some q → iwi.pageNumToIpage.lookup n = some q)
    (happs : iwi'.appIdToTrue = iwi.appIdToTrue) :
    Kept N { w with graph := w.graph.setIwi i iwi' } := by
  refine ⟨h.tables.setIwi (fun _ _ => id) hi hconn hpages fun hn hpage hnot => ?_,
    Stable.setIwi h.graph hi hmax fun _ _ => hpages⟩
  rw [happs]
  exact h.tables.known hi (hpages hn) hpage hnot

theorem kept_iwdpStopDevtools {q : Ptr} : Preserves (Kept N) AnyFault (iwdpStopDevtools env q) :=
  Preserves.kept tables_iwdpStopDevtools stable_iwdpStopDevtools

theorem kept_link {f : Graph → Graph} (hiwis : ∀ g, (f g).iwis = g.iwis)
    (hipages : ∀ g, (f g).ipages = g.ipages) (hfresh : ∀ g, g.fresh ≤ (f g).fresh)
    (hvalue : ∀ {g fd i}, (f g).watched fd = some (.iwi i) → g.watched fd = some (.iwi i)) :
    Preserves (Kept N) AnyFault (link f) :=
  fun _ h => h.of_same (hiwis _) (hipages _) (hfresh _) hvalue rfl

theorem kept_malloc : Preserves (Kept N) AnyFault malloc :=
  fun _ h => h.of_same rfl rfl (Nat.le_succ _) id rfl

omit [Stable N] in
theorem kept_follow {α : Type} {heap : Graph → Ptr → Option α} {gone : Fault} {p : Ptr} :
    Preserves (Kept N) AnyFault (follow heap gone p) :=
  fun _ h => meets_follow.mpr ⟨fun _ _ => h, fun _ => trivial⟩

omit [Stable N] in
theorem kept_notNull {α : Type} {o : Option α} : Preserves (Kept N) AnyFault (notNull o) :=
  fun _ h => meets_notNull.mpr ⟨fun _ _ => h, fun _ => trivial⟩

omit [Stable N] in
theorem kept_ask : Preserves (Kept N) AnyFault ask := kept_of_quiet fun _ => quiet_ask

theorem kept_newFd : Preserves (Kept N) AnyFault (newFd env) :=
  fun _ h => h.of_same rfl rfl (Nat.le_refl _) id rfl

theorem kept_unseen {f : Graph → Graph} (hf : ∀ g, (f g).iwis = g.iwis ∧
    (f g).ipages = g.ipages ∧ (f g).watched = g.watched ∧ (f g).fresh = g.fresh) :
    Preserves (Kept N) AnyFault (link f) := by
  refine kept_link (fun g => (hf g).1) (fun g => (hf g).2.1) (fun g => (hf g).2.2.2.ge) ?_
  intro g fd i h
  rw [(hf g).2.2.1] at h
  exact h

theorem kept_smAddFd {fd : Nat} {value : Value} (hvalue : ∀ i, value ≠ .iwi i) :
    Preserves (Kept N) AnyFault (smAddFd fd value) := by
  intro w h
  rw [meets_smAddFd]
  refine ⟨fun _ => h, fun hnot _ => ?_, fun _ _ => ?_⟩
  · exact h.of_same rfl rfl (Nat.le_refl _) (Graph.watched_replace hnot) rfl
  · refine h.of_same rfl rfl (Nat.le_refl _) (fun hfd => ?_) rfl
    rcases Graph.watched_addFd hfd with ⟨-, heq⟩ | hfd
    · exact absurd heq.symm (hvalue _)
    · exact hfd

/-! ### Descriptors that go -/

section Close

variable {removeFd : Nat → Handler Bool} (hremove : ∀ fd, Preserves (Kept N) AnyFault (removeFd fd))

include hremove

omit [Stable N] in
theorem kept_removeIfOpen (fd : Nat) : Preserves (Kept N) AnyFault (removeIfOpen removeFd fd) := by
  unfold removeIfOpen
  split
  · exact (hremove fd).bind fun _ => preserves_pure _
  · exact preserves_pure _

theorem kept_iwdpIfsClose (f : Ptr) : Preserves (Kept N) AnyFault (iwdpIfsClose removeFd f) := by
  refine kept_follow.bind fun ifs => ?_
  split
  · exact Preserves.bind (kept_unseen fun _ => ⟨rfl, rfl, rfl, rfl⟩) fun _ => preserves_pure _
  · refine kept_follow.bind fun iws => Preserves.bind ?_ fun _ => ?_
    · unfold forgetFile
      split
      · exact kept_unseen fun _ => ⟨rfl, rfl, rfl, rfl⟩
      · exact preserves_pure _
    · refine Preserves.bind (kept_unseen fun _ => ⟨rfl, rfl, rfl, rfl⟩) fun _ => ?_
      exact (kept_removeIfOpen hremove _).bind fun _ => preserves_pure _

theorem kept_iwdpIwsClose (s : Ptr) : Preserves (Kept N) AnyFault (iwdpIwsClose env removeFd s) := by
  refine kept_follow.bind fun iws => Preserves.bind ?_ fun _ => Preserves.bind ?_ fun _ =>
    Preserves.bind ?_ fun _ => Preserves.bind (kept_unseen fun _ => ⟨rfl, rfl, rfl, rfl⟩)
      fun _ => preserves_pure _
  · unfold closePage
    split
    · exact preserves_pure _
    · refine kept_follow.bind fun ipage => ?_
      split
      · exact kept_iwdpStopDevtools.bind fun _ => preserves_pure _
      · exact preserves_pure _
  · refine kept_follow.bind fun iport => ?_
    split
    · exact kept_unseen fun _ => ⟨rfl, rfl, rfl, rfl⟩
    · exact preserves_pure _
  · unfold closeFile
    split
    · exact preserves_pure _
    · refine kept_follow.bind fun ifs => ?_
      exact Preserves.bind (kept_unseen fun _ => ⟨rfl, rfl, rfl, rfl⟩)
        fun _ => kept_removeIfOpen hremove _

omit hremove in
theorem kept_freePages {ipages : List Ptr} (h : Kept N w)
    (hnone : ∀ q ∈ ipages, ∀ {j iwj n}, w.graph.iwis j = some iwj →
      iwj.pageNumToIpage.lookup n ≠ some q) :
    Meets (freePages ipages) w (fun _ w' => Kept N w' ∧ w'.graph.iwis = w.graph.iwis) AnyFault := by
  refine Meets.forM (fun q hq w' ⟨h', hiwis⟩ => ?_) ⟨h, rfl⟩
  rw [meets_bind, meets_getIpage]
  refine ⟨fun _ _ => ⟨⟨h'.tables.freeIpage (fun _ _ _ => id) fun {j iwj n} hj => ?_,
    Stable.freeIpage q h'.graph⟩, hiwis⟩, fun _ => trivial⟩
  rw [hiwis] at hj
  exact hnone q hq hj

omit hremove in
theorem kept_freeIwi (i : Ptr) : Preserves (Kept N) AnyFault (link fun g => g.freeIwi i) := by
  intro w ⟨h, hgraph⟩
  refine ⟨⟨⟨fun hj => ?_, fun hj hk => ?_, h.pages.fresh⟩, fun hj => ?_, fun hfd => ?_,
    h.announced⟩, Stable.freeIwi i hgraph⟩
  · exact h.pages.listed (update_none.mp hj).2
  · exact h.pages.apart (update_none.mp hj).2 (update_none.mp hk).2
  · exact h.known (update_none.mp hj).2
  · exact ⟨(h.named hfd).1, fun hj => (h.named hfd).2 (update_none.mp hj).2⟩

theorem kept_iwdpIwiClose (i : Ptr) : Preserves (Kept N) AnyFault (iwdpIwiClose removeFd i) := by
  intro w h
  rw [iwdpIwiClose, meets_bind, meets_getIwi]
  refine ⟨fun iwi hi => ?_, fun _ => trivial⟩
  have hforget : Meets (forgetIwi iwi.iport) w
      (fun _ w' => Kept N w' ∧ w'.graph.iwis = w.graph.iwis) AnyFault := by
    unfold forgetIwi
    split
    · exact ⟨h, rfl⟩
    · rw [meets_bind, meets_getIport]
      exact ⟨fun _ _ => ⟨h.of_same rfl rfl (Nat.le_refl _) id rfl, rfl⟩, fun _ => trivial⟩
  refine hforget.bind fun _ w1 ⟨h1, hiwis1⟩ => ?_
  rw [meets_bind, meets_link]
  have hi1 : w1.graph.iwis i = some iwi := by rw [hiwis1, hi]
  have h2 : Kept N { w1 with graph := w1.graph.setIwi i { iwi with pageNumToIpage := ∅ } } :=
    h1.setIwi hi1 id rfl (by simp) rfl
  refine Meets.bind (kept_freePages h2 fun q hq j iwj n hj hn => ?_) fun _ w3 ⟨h3, _⟩ => ?_
  · rcases update_some.mp hj with ⟨rfl, rfl⟩ | ⟨hji, hj⟩
    · simp at hn
    · exact hji (own_values h1.tables hi1 q hq hj hn)
  · refine Preserves.bind (kept_freeIwi i) (fun _ => Preserves.bind ?_ fun _ => preserves_pure _)
      w3 h3
    unfold closePort
    split
    · exact preserves_pure _
    · exact kept_follow.bind fun _ => kept_removeIfOpen hremove _

theorem kept_iwdpIportClose (p : Ptr) :
    Preserves (Kept N) AnyFault (iwdpIportClose removeFd p) := by
  refine kept_follow.bind fun iport => preserves_get.bind fun w => ?_
  split
  · exact preserves_pure _
  refine Preserves.bind (Preserves.forM fun s _ => ?_) fun _ => ?_
  · exact kept_follow.bind fun iws => kept_removeIfOpen hremove _
  refine kept_follow.bind fun iport => ?_
  refine Preserves.bind (kept_unseen fun _ => ⟨rfl, rfl, rfl, rfl⟩) fun _ => ?_
  refine Preserves.bind ?_ fun _ => Preserves.bind ?_ fun _ => preserves_pure _
  · refine kept_follow.bind fun iport => ?_
    split
    · exact preserves_pure _
    · next i _ =>
      intro w h
      rw [meets_bind, meets_getIwi]
      refine ⟨fun iwi hi => ?_, fun _ => trivial⟩
      rw [meets_bind, meets_link, meets_bind, meets_link]
      have h1 : Kept N { w with graph := w.graph.setIwi i { iwi with iport := none } } :=
        h.setIwi hi id rfl id rfl
      exact kept_removeIfOpen hremove _ _ (h1.of_same rfl rfl (Nat.le_refl _) id rfl)
  · refine kept_follow.bind fun iport => ?_
    split
    · exact kept_unseen fun _ => ⟨rfl, rfl, rfl, rfl⟩
    · exact kept_unseen fun _ => ⟨rfl, rfl, rfl, rfl⟩

theorem kept_iwdpOnClose (value : Value) :
    Preserves (Kept N) AnyFault (iwdpOnClose env removeFd value) := by
  cases value with
  | idl => exact preserves_pure _
  | iport p => exact kept_iwdpIportClose hremove p
  | iwi i => exact kept_iwdpIwiClose hremove i
  | iws s => exact kept_iwdpIwsClose hremove s
  | ifs f => exact kept_iwdpIfsClose hremove f

end Close

theorem kept_removeFdAt (levels fd : Nat) :
    Preserves (Kept N) AnyFault (removeFdAt env levels fd) := by
  induction levels generalizing fd with
  | zero => exact preserves_throw trivial
  | succ levels ih =>
    refine preserves_get.bind fun w => ?_
    split
    · split
      · exact preserves_throw trivial
      · refine Preserves.bind (kept_link (fun _ => rfl) (fun _ => rfl) (fun _ => Nat.le_refl _)
          Graph.watched_takeValue) fun _ => ?_
        refine (kept_iwdpOnClose ih _).bind fun _ => ?_
        exact Preserves.bind (kept_link (fun _ => rfl) (fun _ => rfl) (fun _ => Nat.le_refl _)
          Graph.watched_clearFd) fun _ => preserves_pure _
    · exact preserves_pure _

theorem kept_smRemoveFd (fd : Nat) : Preserves (Kept N) AnyFault (smRemoveFd env fd) :=
  kept_removeFdAt 4 fd

/-! ### Browsers -/

theorem kept_takeFromOther {q : Ptr} {iwi : Iwi} {ipage : Ipage} :
    Preserves (Kept N) AnyFault (takeFromOther env q iwi ipage) := by
  unfold takeFromOther
  split
  · exact preserves_pure _
  · refine kept_notNull.bind fun p => kept_follow.bind fun _ => kept_follow.bind fun _ => ?_
    refine kept_iwdpStopDevtools.bind fun _ => kept_follow.bind fun _ => ?_
    exact kept_unseen fun _ => ⟨rfl, rfl, rfl, rfl⟩

theorem kept_iwdpStartDevtools {q s : Ptr} :
    Preserves (Kept N) AnyFault (iwdpStartDevtools env q s) := by
  refine kept_follow.bind fun iws => kept_follow.bind fun iport => ?_
  split
  · exact preserves_pure _
  refine kept_follow.bind fun iwi => kept_follow.bind fun ipage => ?_
  refine kept_takeFromOther.bind fun _ => kept_follow.bind fun iws => ?_
  refine Preserves.bind (kept_unseen fun _ => ⟨rfl, rfl, rfl, rfl⟩) fun _ => ?_
  refine Preserves.bind (fun w h => ?_) fun _ => kept_of_quiet fun _ =>
    quiet_sendForwardSocketSetup env _ _ _ _ (fun _ => trivial) (Sound.all _)
  rw [modifyIpage, meets_bind, meets_getIpage]
  exact ⟨fun _ hq => ⟨h.tables.setIpage hq rfl rfl, Stable.setIpage h.graph hq rfl rfl rfl⟩,
    fun _ => trivial⟩

theorem kept_iwdpOnDevtoolsRequest {s : Ptr} (resource : Str) :
    Preserves (Kept N) AnyFault (iwdpOnDevtoolsRequest env s resource) := by
  refine kept_follow.bind fun iws => kept_follow.bind fun iport => Preserves.bind ?_ fun found => ?_
  · unfold requestedPage
    split
    · exact preserves_pure _
    · exact kept_follow.bind fun _ => preserves_pure _
  split
  · exact kept_of_quiet fun _ =>
      quiet_iwdpOnNotFound env (fun _ => trivial) (Sound.all _) _ _ _
  · exact kept_iwdpStartDevtools

omit [Stable N] in
theorem kept_iwdpSendHttp {s : Ptr} (isHead : Bool) (status resource : String) (content : Str) :
    Preserves (Kept N) AnyFault (iwdpSendHttp env s isHead status resource content) :=
  kept_of_quiet fun _ => quiet_iwdpSendHttp env (fun _ => trivial) (Sound.all _) _ _ _ _

theorem kept_iwdpOnStaticRequestForHttp {s : Ptr} (isHead : Bool) (resource feUrl : Str) :
    Preserves (Kept N) AnyFault (iwdpOnStaticRequestForHttp env s isHead resource feUrl) := by
  refine kept_follow.bind fun iws => kept_follow.bind fun _ => ?_
  dsimp only
  split
  · exact (kept_iwdpSendHttp _ _ _ _).bind fun _ => preserves_pure _
  split
  · exact (kept_iwdpSendHttp _ _ _ _).bind fun _ => preserves_pure _
  refine kept_ask.bind fun n => ?_
  split
  · exact (kept_iwdpSendHttp _ _ _ _).bind fun _ => preserves_pure _
  refine kept_newFd.bind fun fsFd => kept_malloc.bind fun f => ?_
  refine Preserves.bind (kept_unseen fun _ => ⟨rfl, rfl, rfl, rfl⟩) fun _ => ?_
  refine kept_follow.bind fun iws => ?_
  refine Preserves.bind (kept_unseen fun _ => ⟨rfl, rfl, rfl, rfl⟩) fun _ => ?_
  refine Preserves.bind (kept_smAddFd fun _ => nofun) fun ok => ?_
  split
  · exact Preserves.bind (kept_of_quiet fun _ => quiet_sendFd env _ _) fun _ => preserves_pure _
  · exact preserves_pure _

theorem kept_iwdpOnStaticRequest {s : Ptr} (isHead : Bool) (resource : Str) :
    Preserves (Kept N) AnyFault (iwdpOnStaticRequest env s isHead resource) := by
  have hfile : ∀ fePath, Preserves (Kept N) AnyFault
      (iwdpOnStaticRequestForFile env s isHead resource fePath) := fun _ =>
    kept_of_quiet fun _ =>
      quiet_iwdpOnStaticRequestForFile env (fun _ => trivial) (Sound.all _) _ _ _
  have hnone : ∀ details, Preserves (Kept N) AnyFault (iwdpOnNotFound env s isHead resource details) :=
    fun _ => kept_of_quiet fun _ =>
      quiet_iwdpOnNotFound env (fun _ => trivial) (Sound.all _) _ _ _
  refine kept_follow.bind fun iws => kept_follow.bind fun _ => ?_
  split
  · exact (hnone _).bind fun _ => preserves_pure _
  split
  · exact (hfile _).bind fun _ => preserves_pure _
  split
  · exact (hfile _).bind fun _ => preserves_pure _
  split
  · exact kept_iwdpOnStaticRequestForHttp _ _ _
  · exact (hnone _).bind fun _ => preserves_pure _

theorem kept_turnRules (s : Ptr) :
    TurnRules env s (Kept N) (Kept N) (Kept N) AnyFault fun _ _ => True where
  quiet := Kept.quiet
  freeQuiet := Kept.quiet
  midQuiet := Kept.quiet
  free h _ := h
  again h := h.of_same rfl rfl (Nat.le_refl _) id rfl
  mid h := h
  late h _ := h
  sound _ := Sound.all _
  live _ _ := trivial
  devtools resource h := kept_iwdpOnDevtoolsRequest resource _ h
  static isHead _ _ h _ _ := kept_iwdpOnStaticRequest isHead _ _ h

theorem kept_wsOnRecv (s : Ptr) (buf : List UInt8) :
    Preserves (Kept N) AnyFault (wsOnRecv env s buf) := fun _ h =>
  (kept_turnRules s).wsOnRecv_inv buf h (TurnsMeet.of_forall (fun _ _ => trivial) _)

/-! ### Devices -/

omit [Stable N] in
theorem kept_isTaken (port : Int) (ps : List Ptr) : Preserves (Kept N) AnyFault (isTaken port ps) := by
  induction ps with
  | nil => exact preserves_pure _
  | cons p ps ih =>
    refine kept_follow.bind fun iport => ?_
    split
    · exact preserves_pure _
    · exact ih

theorem kept_listenOn (port : Int) : Preserves (Kept N) AnyFault (listenOn env port) := by
  refine kept_ask.bind fun n => ?_
  split
  · exact kept_newFd.bind fun _ => preserves_pure _
  · exact preserves_pure _

theorem kept_listenInRange (port : Int) (iports : List Ptr) (ports : List Int) :
    Preserves (Kept N) AnyFault (listenInRange env port iports ports) := by
  induction ports with
  | nil => exact preserves_pure _
  | cons p ps ih =>
    refine (kept_isTaken p iports).bind fun taken => ?_
    split
    · refine (kept_listenOn p).bind fun opened => ?_
      split
      · exact preserves_pure _
      · exact ih
    · exact ih

theorem kept_listenForBrowsers (port minPort maxPort : Int) :
    Preserves (Kept N) AnyFault (listenForBrowsers env port minPort maxPort) := by
  refine Preserves.bind ?_ fun opened => ?_
  · unfold listenDirectly
    split
    · exact kept_listenOn port
    · exact preserves_pure _
  split
  · exact preserves_pure _
  split
  · exact preserves_get.bind fun w => kept_listenInRange _ _ _
  · exact preserves_pure _

theorem kept_iportOf (deviceId : Option Str) (old : Option Ptr) :
    Preserves (Kept N) AnyFault (iportOf deviceId old) := by
  unfold iportOf
  split
  · exact preserves_pure _
  · refine kept_malloc.bind fun p => ?_
    refine Preserves.bind (kept_unseen fun _ => ⟨rfl, rfl, rfl, rfl⟩) fun _ => ?_
    exact Preserves.bind (kept_unseen fun _ => ⟨rfl, rfl, rfl, rfl⟩) fun _ => preserves_pure _

theorem kept_iwdpListen (deviceId : Option Str) :
    Preserves (Kept N) AnyFault (iwdpListen env deviceId) := by
  refine preserves_get.bind fun w => Preserves.bind ?_ fun old => ?_
  · unfold oldPort
    split
    · exact preserves_pure _
    · exact kept_follow.bind fun _ => preserves_pure _
  dsimp only
  split
  · exact preserves_pure _
  refine kept_ask.bind fun n => ?_
  split
  · exact preserves_pure _
  split
  · exact preserves_pure _
  refine (kept_iportOf _ _).bind fun p => (kept_listenForBrowsers _ _ _).bind fun opened => ?_
  split
  · exact preserves_pure _
  refine Preserves.bind (kept_smAddFd fun _ => nofun) fun ok => ?_
  split
  · refine kept_follow.bind fun iport => ?_
    exact Preserves.bind (kept_unseen fun _ => ⟨rfl, rfl, rfl, rfl⟩) fun _ => preserves_pure _
  · exact preserves_pure _

theorem kept_iwdpStart : Preserves (Kept N) AnyFault (iwdpStart env) := by
  refine (kept_iwdpListen none).bind fun _ => kept_ask.bind fun n => ?_
  split
  · refine kept_newFd.bind fun dlFd => ?_
    exact Preserves.bind (kept_smAddFd fun _ => nofun) fun _ => preserves_pure _
  · exact preserves_pure _

theorem kept_removePort (p : Ptr) : Preserves (Kept N) AnyFault (removePort env p) :=
  kept_follow.bind fun _ => (kept_smRemoveFd _).bind fun _ => preserves_pure _

theorem kept_newIwi {w : World} (h : Kept N w) (iwi : Iwi) (hempty : iwi.pageNumToIpage = ∅) :
    Kept N { w with
      graph := Graph.setIwi { w.graph with fresh := w.graph.fresh + 1 } w.graph.fresh iwi } := by
  refine ⟨?_, Stable.newIwi h.graph hempty⟩
  obtain ⟨⟨hlisted, hapart, hlt⟩, hknown, hnamed, hann⟩ := h.tables
  -- an inspector with a page is an old one
  have hold : ∀ {j iwj n q}, Function.update w.graph.iwis w.graph.fresh (some iwi) j = some iwj →
      iwj.pageNumToIpage.lookup n = some q → w.graph.iwis j = some iwj := by
    intro j iwj n q hj hn
    rcases update_some.mp hj with ⟨-, rfl⟩ | ⟨-, hj⟩
    · rw [hempty, AList.lookup_empty] at hn
      cases hn
    · exact hj
  refine ⟨⟨?_, ?_, ?_⟩, ?_, ?_, hann⟩
  · exact fun hj hn => hlisted (hold hj hn) hn
  · exact fun hj hk hn hm => hapart (hold hj hn) (hold hk hm) hn hm
  · exact fun hq => Nat.lt_succ_of_lt (hlt hq)
  · exact fun hj hn => hknown (hold hj hn) hn
  · intro fd j hfd
    obtain ⟨hj, hid⟩ := hnamed hfd
    refine ⟨Nat.lt_succ_of_lt hj, fun hiwj => hid ?_⟩
    exact (update_some.mp hiwj).elim (fun heq => absurd heq.1 (Nat.ne_of_lt hj)) And.right

theorem kept_watch {w : World} (h : Kept N w) (fd : Nat) {i : Ptr} (hlt : i < w.graph.fresh)
    (hid : ∀ {iwi}, w.graph.iwis i = some iwi → iwi.connectionId ≠ none) :
    Kept N { w with graph := w.graph.addFd fd (.iwi i) } := by
  refine ⟨⟨h.tables.pages, h.tables.known, fun hfd => ?_, h.tables.announced⟩,
    Stable.same h.graph rfl rfl (Nat.le_refl _)⟩
  rcases Graph.watched_addFd hfd with ⟨rfl, heq⟩ | hfd
  · cases heq
    exact ⟨hlt, hid⟩
  · exact h.tables.named hfd

theorem kept_startInspector (p : Ptr) (names : Bool) :
    Preserves (Kept N) AnyFault (startInspector env p names) := by
  intro w h
  rw [startInspector, meets_bind, meets_newFd, meets_bind, meets_malloc, meets_bind, meets_link,
    meets_bind, meets_getIport]
  refine ⟨fun iport _ => ?_, fun _ => trivial⟩
  rw [meets_bind, meets_link]
  generalize hwiFd : env.socket w.tick w.graph.allFds = wiFd
  have h1 := kept_newIwi h ⟨some p, 0, none, none, 0, ∅, ∅⟩ rfl
  rw [meets_bind, meets_smAddFd]
  refine ⟨fun _ => ?_, fun hnot _ => ?_, fun _ _ => ?_⟩
  · exact kept_removePort p _ (h1.of_same rfl rfl (Nat.le_refl _) id rfl)
  · exact kept_removePort p _ (h1.of_same rfl rfl (Nat.le_refl _) (Graph.watched_replace hnot) rfl)
  rw [if_pos rfl, meets_bind, meets_ask, modifyIwi, meets_bind, meets_bind, meets_getIwi]
  refine ⟨fun iwi hi => ?_, fun _ => trivial⟩
  rw [meets_link]
  obtain rfl := Option.some.inj ((Graph.setIwi_self _ _ _).symm.trans hi)
  generalize hiwi : (⟨some p, 0, none, none, 0, ∅, ∅⟩ : Iwi) = iwi at h1
  have h2 : Kept N { w with
      graph := (Graph.setIwi { w.graph with fresh := w.graph.fresh + 1 } w.graph.fresh iwi).setIwi
        w.graph.fresh { iwi with wiFd := wiFd, connectionId := some (env.uuid (w.tick + 1)) } } :=
    h1.setIwi (Graph.setIwi_self _ _ _) (fun _ => by simp) rfl id rfl
  have h3 := kept_watch h2 wiFd (Nat.lt_succ_self _) fun hi => by
    obtain rfl := Option.some.inj ((Graph.setIwi_self _ _ _).symm.trans hi)
    simp
  subst hiwi
  refine Preserves.bind (kept_of_quiet fun _ => quiet_sendReportIdentifier env _
    (fun _ => trivial) (Sound.all _)) (fun ok => ?_) _ (h3.of_same rfl rfl (Nat.le_refl _) id rfl)
  split
  · split
    · exact kept_follow.bind fun _ => kept_unseen fun _ => ⟨rfl, rfl, rfl, rfl⟩
    · exact preserves_throw trivial
  · exact kept_removePort p

theorem kept_iwdpOnAttach (deviceId : Str) : Preserves (Kept N) AnyFault (iwdpOnAttach env deviceId) := by
  refine (kept_iwdpListen _).bind fun ok => ?_
  split
  · refine preserves_get.bind fun w => ?_
    split
    · exact preserves_pure _
    refine kept_follow.bind fun iport => ?_
    split
    · exact preserves_pure _
    refine kept_ask.bind fun n => ?_
    split
    · exact kept_removePort _
    · exact kept_startInspector _ _
  · exact preserves_pure _

theorem kept_iwdpOnDetach (deviceId : Str) :
    Preserves (Kept N) AnyFault (iwdpOnDetach env deviceId) := by
  refine preserves_get.bind fun w => ?_
  split
  · exact preserves_pure _
  refine kept_follow.bind fun iport => ?_
  split
  · exact (kept_smRemoveFd _).bind fun _ => preserves_pure _
  · exact preserves_pure _

/-! ### Events -/

theorem kept_smAccept (p : Ptr) : Preserves (Kept N) AnyFault (smAccept env p) := by
  refine kept_newFd.bind fun fd => Preserves.bind ?_ fun s => ?_
  · refine kept_malloc.bind fun s => Preserves.bind (fun _ h => ?_) fun _ => ?_
    · exact h.of_same rfl rfl (Nat.le_refl _) id rfl
    refine kept_ask.bind fun n => ?_
    refine Preserves.bind (kept_unseen fun _ => ⟨rfl, rfl, rfl, rfl⟩) fun _ => ?_
    refine kept_follow.bind fun iport => ?_
    exact Preserves.bind (kept_unseen fun _ => ⟨rfl, rfl, rfl, rfl⟩) fun _ => preserves_pure _
  refine Preserves.bind (kept_smAddFd fun _ => nofun) fun ok => ?_
  split
  · exact preserves_pure _
  · exact (kept_iwdpOnClose kept_smRemoveFd _).bind fun _ => preserves_pure _

theorem kept_relay (f : Ptr) (buf : List UInt8) : Preserves (Kept N) AnyFault (relay env f buf) := by
  refine kept_follow.bind fun ifs => kept_notNull.bind fun s => kept_follow.bind fun iws => ?_
  refine Preserves.bind (kept_of_quiet fun _ => quiet_sendFd env _ _) fun ok => ?_
  split
  · exact preserves_pure _
  · exact (kept_smRemoveFd _).bind fun _ => preserves_pure _

theorem kept_orRemove (fd : Nat) (ok : Bool) : Preserves (Kept N) AnyFault (orRemove env fd ok) := by
  unfold orRemove
  split
  · exact preserves_pure _
  · exact (kept_smRemoveFd _).bind fun _ => preserves_pure _

theorem onMessage_none {w : World} {i : Ptr} (hi : w.graph.iwis i = none) (message : Message) :
    Meets (onMessage env i message) w (fun _ w' => w' = w) AnyFault := by
  have hgone : ∀ {β : Type} {f : Iwi → Handler β} {Q : β → World → Prop},
      Meets (getIwi i >>= f) w Q AnyFault := by
    intro β f Q
    rw [meets_bind, meets_getIwi, hi]
    exact ⟨nofun, fun _ => trivial⟩
  have hset : ∀ app, Meets (rpcSetApp env i app) w (fun _ _ => False) AnyFault := by
    intro app
    unfold rpcSetApp
    split
    · trivial
    · exact hgone
  cases message with
  | reportSetup => exact hgone
  | reportConnectedApplicationList listed => exact hgone
  | applicationConnected app => exact (hset app).bind fun _ _ hno => hno.elim
  | applicationDisconnected app => exact hgone
  | applicationSentListing appId pages => exact hgone
  | applicationSentData destId data => exact hgone
  | applicationUpdated appId destId =>
    refine Meets.bind (Q := fun _ _ => False) ?_ fun _ _ hno => hno.elim
    exact hgone
  | reportConnectedDriverList => exact rfl

theorem TablesBut.handling {w : World} (h : Tables w) {fd : Nat} {i : Ptr} {iwi : Iwi}
    (hfd : w.graph.watched fd = some (.iwi i)) (hi : w.graph.iwis i = some iwi) :
    Handling i w noPage (· ∈ iwi.appIdToTrue) w :=
  ⟨h, fun _ _ => rfl, iwi, hi, fun _ => Iff.rfl, (h.named hfd).2 hi⟩

theorem kept_rpcRecvPlist (h : Kept N w) {fd : Nat} {i : Ptr}
    (hfd : w.graph.watched fd = some (.iwi i)) (rpcDict : Plist)
    (hlisting : ∀ appId pages,
      rpcMessage env rpcDict = .ok (some (.applicationSentListing appId pages)) →
      Meets (iwdpOnApplicationSentListing env i appId pages) w (fun _ w' => N w'.graph) AnyFault) :
    Meets (rpcRecvPlist env i rpcDict) w (fun _ => Kept N) AnyFault := by
  unfold rpcRecvPlist
  split
  · trivial
  · exact h
  next message hmessage =>
  cases hi : w.graph.iwis i with
  | none =>
    refine (onMessage_none hi message).post fun _ w' heq => ?_
    rw [heq]
    exact h
  | some iwi =>
    have hgraph : Meets (onMessage env i message) w (fun _ w' => N w'.graph) AnyFault := by
      by_cases hm : ∃ appId pages, message = .applicationSentListing appId pages
      · obtain ⟨appId, pages, rfl⟩ := hm
        exact hlisting appId pages hmessage
      · exact stable_onMessage (fun appId pages heq => hm ⟨appId, pages, heq⟩) w h.graph
    refine ((handling_onMessage message (h.tables.handling hfd hi)).both hgraph).post ?_
    rintro _ w' ⟨⟨_, h'⟩, hg⟩
    exact ⟨h'.tables, hg⟩

/-- **Whatever happens, the tables agree.**  So does what only a listing can break, if the listing
does not. -/
theorem kept_handle (e : Event) (h : Kept N w)
    (hlisting : ∀ fd rpcDict i appId pages, e = .message fd rpcDict →
      w.graph.watched fd = some (.iwi i) →
      rpcMessage env rpcDict = .ok (some (.applicationSentListing appId pages)) →
      Meets (iwdpOnApplicationSentListing env i appId pages) w (fun _ w' => N w'.graph) AnyFault) :
    Meets (handle env e) w (fun _ => Kept N) AnyFault := by
  cases e with
  | start => exact kept_iwdpStart w h
  | attach deviceId => exact kept_iwdpOnAttach deviceId w h
  | detach deviceId => exact kept_iwdpOnDetach deviceId w h
  | accept sFd =>
    refine Preserves.bind preserves_get (fun w => ?_) w h
    split
    · exact kept_smAccept _
    · exact preserves_pure _
  | bytes fd buf =>
    refine Preserves.bind preserves_get (fun w => ?_) w h
    split
    · split
      · exact preserves_pure _
      · exact (kept_wsOnRecv _ _).bind fun _ => kept_orRemove _ _
    · exact (kept_relay _ _).bind fun _ => kept_orRemove _ _
    · exact preserves_pure _
  | message fd rpcDict =>
    rw [handle, meets_bind, meets_get]
    split
    · next i hfd =>
      refine (kept_rpcRecvPlist h hfd rpcDict fun appId pages => ?_).bind
        fun _ _ h' => kept_orRemove _ _ _ h'
      exact hlisting fd rpcDict i appId pages rfl hfd
    · exact h
  | gone fd => exact kept_orRemove _ _ w h

theorem tables_handle (e : Event) : Preserves Tables AnyFault (handle env e) := fun w h =>
  (@kept_handle (fun _ => True) _ env w e ⟨h, trivial⟩ fun _ _ _ _ _ _ _ _ =>
    Meets.trivial).post fun _ _ h' => h'.tables

theorem Reachable.tables {w : World} (h : Reachable env w) : Tables w := by
  obtain ⟨es, hrun⟩ := h
  refine Along.inv (P := fun _ _ => True) (fun w e w' hw _ hstep => ?_)
    (Along.of_forall fun _ _ => trivial) tables_start hrun
  obtain ⟨_, hw'⟩ := (tables_handle e w hw).after_ok hstep
  exact hw'

theorem step_report {w w' : World} (h : Tables w) {fd : Nat} {i : Ptr} {rpcDict : Plist}
    {listed : List RpcApp} (hfd : w.graph.watched fd = some (.iwi i))
    (hmessage : rpcMessage env rpcDict = .ok (some (.reportConnectedApplicationList listed)))
    (hstep : step env w (.message fd rpcDict) = .ok w') :
    if listed = [] then w' = w
    else ∃ iwi, w'.graph.iwis i = some iwi ∧ ∀ a, a ∈ iwi.appIdToTrue ↔ ∃ app ∈ listed, app.appId = a := by
  have hmeets : Meets (handle env (.message fd rpcDict)) w (fun _ w' =>
      if listed = [] then w' = w
      else ∃ iwi, w'.graph.iwis i = some iwi ∧
        ∀ a, a ∈ iwi.appIdToTrue ↔ ∃ app ∈ listed, app.appId = a) AnyFault := by
    rw [handle, meets_bind, meets_get, hfd]
    dsimp only
    rw [meets_bind, rpcRecvPlist, hmessage]
    show Meets (iwdpOnReportConnectedApplicationList env i listed) w _ _
    by_cases hne : listed = []
    · rw [iwdpOnReportConnectedApplicationList, meets_bind, meets_getIwi]
      refine ⟨fun iwi _ => ?_, fun _ => trivial⟩
      rw [if_pos hne]
      show if listed = [] then w = w else _
      rw [if_pos hne]
    · simp only [if_neg hne]
      cases hi : w.graph.iwis i with
      | none =>
        rw [iwdpOnReportConnectedApplicationList, meets_bind, meets_getIwi, hi]
        exact ⟨by simp, fun _ => trivial⟩
      | some iwi =>
        refine (iwdpOnReportConnectedApplicationList_keys (h.handling hfd hi) hne).post ?_
        rintro _ w1 ⟨rfl, h1⟩
        obtain ⟨iwi1, hi1, happs, -⟩ := h1.self
        exact ⟨iwi1, hi1, happs⟩
  obtain ⟨_, hw'⟩ := hmeets.after_ok hstep
  exact hw'

/-- **The tables of an inspector agree.**  In every state that a run reaches, the pages of an
inspector belong to applications that it knows, and each of these was asked for its listing when it
became known.  Right after a list of applications that is not empty these are the ones it knows; an
empty list changes nothing. -/
theorem apps_agree {w : World} (h : Reachable env w) :
    (∀ i iwi n q, w.graph.iwis i = some iwi → iwi.pageNumToIpage.lookup n = some q →
      ∃ ipage, w.graph.ipages q = some ipage ∧ ipage.appId ∈ iwi.appIdToTrue) ∧
    Announced w.out ∧
    ∀ fd i rpcDict listed w', w.graph.watched fd = some (.iwi i) →
      rpcMessage env rpcDict = .ok (some (.reportConnectedApplicationList listed)) →
      step env w (.message fd rpcDict) = .ok w' →
      if listed = [] then w' = w
      else ∃ iwi, w'.graph.iwis i = some iwi ∧
        ∀ a, a ∈ iwi.appIdToTrue ↔ ∃ app ∈ listed, app.appId = a := by
  have htables := h.tables
  refine ⟨fun i iwi n q hi hn => ?_, htables.announced, ?_⟩
  · obtain ⟨ipage, hq, -⟩ := htables.pages.listed hi hn
    exact ⟨ipage, hq, htables.known hi hn hq id⟩
  · intro fd i rpcDict listed w' hfd hmessage hstep
    exact step_report htables hfd hmessage hstep

end Rest

/-! ### A run -/

def keyNode (k : Str) : Plist := .scalar (.key k) k.length
def stringNode (s : Str) : Plist := .scalar (.string s) s.length

/-- An `applicationDictionary` with these names. -/
def reportOf (appIds : List Str) : Plist :=
  .dict [keyNode selectorKey, stringNode (ascii "_rpc_reportConnectedApplicationList:"),
    keyNode argumentKey, .dict [keyNode wirApplicationDictionaryKey,
      .dict (appIds.flatMap fun a => [keyNode a, .dict [keyNode wirApplicationIdentifierKey,
        stringNode a, keyNode wirApplicationNameKey, stringNode a]])]]

/-- A device with two applications, of which one goes. -/
theorem apps_agree_run : ∃ w w', Reachable .generous w ∧
    step .generous w (.message 2 (reportOf [ascii "b"])) = .ok w' ∧
    ∃ iwi, w'.graph.iwis 1 = some iwi ∧ ∀ a, a ∈ iwi.appIdToTrue ↔ a = ascii "b" := by
  obtain ⟨w, hrun, hw⟩ := exists_ok (x := runAll (step .generous) World.start
    [.attach (ascii "device"), .message 2 (reportOf [ascii "a", ascii "b"])])
    (p := fun w => w.graph.watched 2 == some (.iwi 1) &&
      (step .generous w (.message 2 (reportOf [ascii "b"]))).toOption.isSome) (by decide +kernel)
  rw [Bool.and_eq_true] at hw
  obtain ⟨w', hstep, -⟩ := exists_ok (p := fun _ => true)
    (show (step .generous w (.message 2 (reportOf [ascii "b"]))).toOption.any _ = true by
      simpa using hw.2)
  have hmessage : rpcMessage .generous (reportOf [ascii "b"])
      = .ok (some (.reportConnectedApplicationList [⟨ascii "b", some (ascii "b"), false⟩])) := by
    decide +kernel
  have hreport := (apps_agree ⟨_, hrun⟩).2.2 2 1 _ _ w' (by simpa using hw.1) hmessage hstep
  rw [if_neg (List.cons_ne_nil _ _)] at hreport
  obtain ⟨iwi, hi, happs⟩ := hreport
  refine ⟨w, w', ⟨_, hrun⟩, hstep, iwi, hi, fun a => (happs a).trans ?_⟩
  simp [eq_comm]

/-- After an empty list the inspector knows what it knew. -/
theorem empty_list_keeps : ∃ w w', Reachable .generous w ∧ w.graph.watched 2 = some (.iwi 1) ∧
    rpcMessage .generous (reportOf []) = .ok (some (.reportConnectedApplicationList [])) ∧
    step .generous w (.message 2 (reportOf [])) = .ok w' ∧
    ∃ iwi, w'.graph.iwis 1 = some iwi ∧ ascii "a" ∈ iwi.appIdToTrue := by
  obtain ⟨w, hrun, hw⟩ := exists_ok (x := runAll (step .generous) World.start
    [.attach (ascii "device"), .message 2 (reportOf [ascii "a"])])
    (p := fun w => w.graph.watched 2 == some (.iwi 1) &&
      ((step .generous w (.message 2 (reportOf []))).toOption.any fun w' =>
        (w'.graph.iwis 1).any (ascii "a" ∈ ·.appIdToTrue))) (by decide +kernel)
  rw [Bool.and_eq_true] at hw
  obtain ⟨w', hstep, hw'⟩ := exists_ok hw.2
  obtain ⟨iwi, hi, hknown⟩ := (Option.any_eq_true _ _).mp hw'
  refine ⟨w, w', ⟨_, hrun⟩, by simpa using hw.1, by decide +kernel, hstep, iwi, hi, ?_⟩
  simpa using hknown

end IDeviceStack.WebkitProxy.Iwdp
