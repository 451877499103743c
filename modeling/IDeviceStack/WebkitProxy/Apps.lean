/-
# `WebkitProxy.Apps` — applications and their pages

What `app_id_to_true` and `page_num_to_ipage` of an inspector have to do with each
other, and what the messages of the inspector do with them.

**Proved here.**  Every message keeps `Tables`: the pages of a table are there, have
the numbers they are filed under, belong to one inspector, and to an application that
it knows; and what was put into `app_id_to_true` was asked for its listing at once
(`Announced`).  A list of applications that is not empty leaves exactly its own
(`iwdpOnReportConnectedApplicationList_keys`); an empty one changes nothing, so a
stale application stays.
-/
import IDeviceStack.WebkitProxy.Quiet

namespace IDeviceStack.WebkitProxy.Iwdp

open Lib Libplist

/-! ## The invariant -/

/-- What was sent, with every key of `app_id_to_true` followed by one request for its listing, and
no other listing but one for each `unknown`. -/
inductive Announced : List Out → Prop
  | nil : Announced []
  | other {out : List Out} {o : Out} : Announced out → o.IsOther → Announced (out ++ [o])
  | known {out : List Out} {i : Ptr} {appId c : Str} {ok : Bool} : Announced out →
      Announced (out ++ [.known i appId, .rpc i (.forwardGetListing c appId) ok])
  | unknown {out : List Out} {i : Ptr} {appId c last : Str} {ok : Bool} : Announced out →
      Announced (out ++ [.unknown i appId, .rpc i (.forwardGetListing c last) ok])

theorem Announced.append {out : List Out} (h : Announced out) {new : List Out}
    (hnew : ∀ o ∈ new, o.IsOther) : Announced (out ++ new) := by
  induction new generalizing out with
  | nil =>
    rw [List.append_nil]
    exact h
  | cons o new ih =>
    rw [List.append_cons]
    exact ih (h.other (hnew o List.mem_cons_self)) fun o' ho' => hnew o' (List.mem_cons_of_mem o ho')

/-- The tables of an inspector, and the pages in them. -/
structure PagesOk (iwis : Ptr → Option Iwi) (ipages : Ptr → Option Ipage) (fresh : Ptr) :
    Prop where
  listed : ∀ {i iwi n q}, iwis i = some iwi → iwi.pageNumToIpage.lookup n = some q →
    ∃ ipage, ipages q = some ipage ∧ ipage.pageNum = n
  apart : ∀ {i j iwi iwj n m q}, iwis i = some iwi → iwis j = some iwj →
    iwi.pageNumToIpage.lookup n = some q → iwj.pageNumToIpage.lookup m = some q → i = j
  fresh : ∀ {q ipage}, ipages q = some ipage → q < fresh

/-- Every page belongs to an application that its inspector knows, but for the pages of the
applications in `except`. -/
def Known (iwis : Ptr → Option Iwi) (ipages : Ptr → Option Ipage) (except : Ptr → Str → Prop) :
    Prop :=
  ∀ {i iwi n q ipage}, iwis i = some iwi → iwi.pageNumToIpage.lookup n = some q →
    ipages q = some ipage → ¬ except q ipage.appId → ipage.appId ∈ iwi.appIdToTrue

/-- An inspector that gets messages has a connection id. -/
def Named (iwis : Ptr → Option Iwi) (watched : Nat → Option Value) (fresh : Ptr) : Prop :=
  ∀ {fd i}, watched fd = some (.iwi i) →
    i < fresh ∧ ∀ {iwi}, iwis i = some iwi → iwi.connectionId ≠ none

structure TablesBut (except : Ptr → Str → Prop) (w : World) : Prop where
  pages : PagesOk w.graph.iwis w.graph.ipages w.graph.fresh
  known : Known w.graph.iwis w.graph.ipages except
  named : Named w.graph.iwis w.graph.watched w.graph.fresh
  announced : Announced w.out

/-- The tables agree. -/
abbrev Tables : World → Prop := TablesBut fun _ _ => False

theorem tables_start : Tables World.start where
  pages := ⟨nofun, nofun, nofun⟩
  known := nofun
  named := nofun
  announced := .nil

section Keep

variable {except : Ptr → Str → Prop} {w w' : World}

theorem TablesBut.quiet (h : TablesBut except w) (hq : Quiet w w') : TablesBut except w' := by
  obtain ⟨hg, ⟨new, hnew, hother⟩, -⟩ := hq
  refine ⟨hg ▸ h.pages, hg ▸ h.known, hg ▸ h.named, ?_⟩
  rw [hnew]
  exact h.announced.append hother

theorem TablesBut.of_same (h : TablesBut except w) (hiwis : w'.graph.iwis = w.graph.iwis)
    (hipages : w'.graph.ipages = w.graph.ipages) (hfresh : w.graph.fresh ≤ w'.graph.fresh)
    (hvalue : ∀ {fd i}, w'.graph.watched fd = some (.iwi i) → w.graph.watched fd = some (.iwi i))
    (hout : w'.out = w.out) : TablesBut except w' := by
  obtain ⟨⟨hlisted, hapart, hlt⟩, hknown, hnamed, hann⟩ := h
  refine ⟨⟨?_, ?_, ?_⟩, ?_, ?_, hout ▸ hann⟩
  · rw [hiwis, hipages]
    exact hlisted
  · rw [hiwis]
    exact hapart
  · rw [hipages]
    exact fun hq => Nat.lt_of_lt_of_le (hlt hq) hfresh
  · rw [hiwis, hipages]
    exact hknown
  · intro fd i hfd
    obtain ⟨hi, hid⟩ := hnamed (hvalue hfd)
    rw [hiwis]
    exact ⟨Nat.lt_of_lt_of_le hi hfresh, hid⟩

variable {i : Ptr} {iwi iwi' : Iwi} {q : Ptr} {ipage ipage' : Ipage}

theorem TablesBut.setIwi {except' : Ptr → Str → Prop} (h : TablesBut except w)
    (hsub : ∀ q a, except q a → except' q a) (hi : w.graph.iwis i = some iwi)
    (hconn : iwi.connectionId ≠ none → iwi'.connectionId ≠ none)
    (hpages : ∀ {n q}, iwi'.pageNumToIpage.lookup n = some q → iwi.pageNumToIpage.lookup n = some q)
    (happs : ∀ {n q ipage}, iwi'.pageNumToIpage.lookup n = some q → w.graph.ipages q = some ipage →
      ¬ except' q ipage.appId → ipage.appId ∈ iwi'.appIdToTrue) :
    TablesBut except' { w with graph := w.graph.setIwi i iwi' } := by
  have hold : ∀ {j iwj n q}, (w.graph.setIwi i iwi').iwis j = some iwj →
      iwj.pageNumToIpage.lookup n = some q →
      ∃ iwj0, w.graph.iwis j = some iwj0 ∧ iwj0.pageNumToIpage.lookup n = some q := by
    intro j iwj n q hj hq
    rcases update_some.mp hj with ⟨rfl, rfl⟩ | ⟨-, hj⟩
    · exact ⟨iwi, hi, hpages hq⟩
    · exact ⟨iwj, hj, hq⟩
  refine ⟨⟨?_, ?_, h.pages.fresh⟩, ?_, ?_, h.announced⟩
  · intro j iwj n q hj hq
    obtain ⟨iwj0, hj0, hq0⟩ := hold hj hq
    exact h.pages.listed hj0 hq0
  · intro j k iwj iwk n m q hj hk hq hq'
    obtain ⟨iwj0, hj0, hq0⟩ := hold hj hq
    obtain ⟨iwk0, hk0, hq0'⟩ := hold hk hq'
    exact h.pages.apart hj0 hk0 hq0 hq0'
  · intro j iwj n q ipage hj hq hpage hnot
    rcases update_some.mp hj with ⟨rfl, rfl⟩ | ⟨-, hj⟩
    · exact happs hq hpage hnot
    · exact h.known hj hq hpage fun hex => hnot (hsub q _ hex)
  · intro fd j hfd
    obtain ⟨hlt, hid⟩ := h.named hfd
    refine ⟨hlt, fun hj => ?_⟩
    rcases update_some.mp hj with ⟨rfl, rfl⟩ | ⟨-, hj⟩
    · exact hconn (hid hi)
    · exact hid hj

theorem TablesBut.setIpage (h : TablesBut except w) (hq : w.graph.ipages q = some ipage)
    (hnum : ipage'.pageNum = ipage.pageNum) (happ : ipage'.appId = ipage.appId) :
    TablesBut except { w with graph := w.graph.setIpage q ipage' } := by
  refine ⟨⟨?_, h.pages.apart, ?_⟩, ?_, h.named, h.announced⟩
  · intro j iwj n q' hj hq'
    obtain ⟨page, hpage, hn⟩ := h.pages.listed hj hq'
    by_cases hqq : q' = q
    · subst hqq
      obtain rfl := Option.some.inj (hq.symm.trans hpage)
      exact ⟨ipage', update_some.mpr (.inl ⟨rfl, rfl⟩), hnum.trans hn⟩
    · exact ⟨page, update_some.mpr (.inr ⟨hqq, hpage⟩), hn⟩
  · intro q' page hpage
    rcases update_some.mp hpage with ⟨rfl, -⟩ | ⟨-, hpage⟩
    · exact h.pages.fresh hq
    · exact h.pages.fresh hpage
  · intro j iwj n q' page hj hq' hpage hnot
    rcases update_some.mp hpage with ⟨rfl, rfl⟩ | ⟨-, hpage⟩
    · rw [happ] at hnot ⊢
      exact h.known hj hq' hq hnot
    · exact h.known hj hq' hpage hnot

theorem TablesBut.freeIpage {except' : Ptr → Str → Prop} (h : TablesBut except w)
    (hsub : ∀ q' a, q' ≠ q → except q' a → except' q' a)
    (hq : ∀ {j iwj n}, w.graph.iwis j = some iwj → iwj.pageNumToIpage.lookup n ≠ some q) :
    TablesBut except' { w with graph := w.graph.freeIpage q } := by
  refine ⟨⟨?_, h.pages.apart, ?_⟩, ?_, h.named, h.announced⟩
  · intro j iwj n q' hj hq'
    obtain ⟨page, hpage, hn⟩ := h.pages.listed hj hq'
    exact ⟨page, update_none.mpr ⟨fun heq => hq hj (heq ▸ hq'), hpage⟩, hn⟩
  · intro q' page hpage
    exact h.pages.fresh (update_none.mp hpage).2
  · intro j iwj n q' page hj hq' hpage hnot
    obtain ⟨hqq, hpage⟩ := update_none.mp hpage
    exact h.known hj hq' hpage fun hex => hnot (hsub q' _ hqq hex)

theorem TablesBut.out (h : TablesBut except w) (hg : w'.graph = w.graph) (hann : Announced w'.out) :
    TablesBut except w' := ⟨hg ▸ h.pages, hg ▸ h.known, hg ▸ h.named, hann⟩

end Keep

/-! ## Messages -/

/-- Any fault may end a run. -/
abbrev AnyFault : Fault → Prop := fun _ => True

/-- The state in the middle of a message to the inspector `i` that came in `w₀`: the other
inspectors are as they were, and `i` knows the applications `apps`. -/
structure Handling (i : Ptr) (w₀ : World) (except : Ptr → Str → Prop) (apps : Str → Prop)
    (w : World) : Prop where
  tables : TablesBut except w
  others : ∀ j, j ≠ i → w.graph.iwis j = w₀.graph.iwis j
  self : ∃ iwi, w.graph.iwis i = some iwi ∧ (∀ a, a ∈ iwi.appIdToTrue ↔ apps a) ∧
    iwi.connectionId ≠ none

section Messages

variable {env : Outside} {i q : Ptr} {w₀ w w' : World} {except : Ptr → Str → Prop} {apps : Str → Prop}

theorem Handling.quiet (h : Handling i w₀ except apps w) (hq : Quiet w w') :
    Handling i w₀ except apps w' :=
  ⟨h.tables.quiet hq, hq.graph ▸ h.others, hq.graph ▸ h.self⟩

theorem Handling.of_apps {apps' : Str → Prop} (h : Handling i w₀ except apps w)
    (heq : ∀ a, apps a ↔ apps' a) : Handling i w₀ except apps' w := by
  obtain ⟨iwi, hi, happs, hc⟩ := h.self
  exact ⟨h.tables, h.others, iwi, hi, fun a => (happs a).trans (heq a), hc⟩

variable {except' : Ptr → Str → Prop} {iwi : Iwi}

theorem Handling.setIwi {apps' : Str → Prop} {iwi' : Iwi} (h : Handling i w₀ except apps w)
    (htables : TablesBut except' { w with graph := w.graph.setIwi i iwi' })
    (hi : w.graph.iwis i = some iwi) (hconn : iwi'.connectionId = iwi.connectionId)
    (happs : ∀ a, a ∈ iwi'.appIdToTrue ↔ apps' a) :
    Handling i w₀ except' apps' { w with graph := w.graph.setIwi i iwi' } := by
  obtain ⟨iwi0, hi0, -, hc⟩ := h.self
  obtain rfl := Option.some.inj (hi.symm.trans hi0)
  refine ⟨htables, fun j hj => ?_, iwi', update_some.mpr (.inl ⟨rfl, rfl⟩), happs, hconn ▸ hc⟩
  exact (Function.update_of_ne hj _ _).trans (h.others j hj)

theorem Handling.of_iwis (h : Handling i w₀ except apps w) (hiwis : w'.graph.iwis = w.graph.iwis)
    (htables : TablesBut except' w') :
    Handling i w₀ except' apps w' := ⟨htables, hiwis ▸ h.others, hiwis ▸ h.self⟩

theorem quiet_tellClosed {iport : Iport} {ipage : Ipage} :
    Preserves (Quiet w) AnyFault (tellClosed env iport ipage) := by
  unfold tellClosed
  split
  · exact preserves_pure _
  · refine quiet_follow_bind (fun _ => trivial) fun iwi _ => ?_
    split
    · exact (quiet_sendForwardDidClose env _ _ _ _ (fun _ => trivial) (Sound.all _)).bind
        fun _ => preserves_pure _
    · exact preserves_pure _

/-- The end of a link between a page and a websocket leaves the inspectors and the numbers of the
pages alone. -/
theorem iwdpStopDevtools_kept (h : TablesBut except w) :
    Meets (iwdpStopDevtools env q) w (fun _ w' => TablesBut except w' ∧
      w'.graph.iwis = w.graph.iwis ∧
      (w'.graph.ipages q).map Ipage.pageNum = (w.graph.ipages q).map Ipage.pageNum) AnyFault := by
  rw [iwdpStopDevtools, meets_bind, meets_getIpage]
  refine ⟨fun ipage hq => ?_, fun _ => trivial⟩
  split
  · exact ⟨h, rfl, rfl⟩
  next s _ =>
  rw [meets_bind, meets_getOwner]
  refine ⟨fun iws _ => ?_, fun _ => trivial⟩
  split
  · exact ⟨h, rfl, rfl⟩
  split
  · exact ⟨h, rfl, rfl⟩
  rw [meets_bind, meets_getIport]
  refine ⟨fun iport _ => ?_, fun _ => trivial⟩
  split
  · exact ⟨h, rfl, rfl⟩
  refine (quiet_tellClosed w (Quiet.refl w)).bind fun _ w1 hq1 => ?_
  have hpage : w1.graph.ipages q = some ipage := by rw [hq1.graph, hq]
  have h2 : TablesBut except { w1 with
      graph := w1.graph.setIws s { iws with ipage := none, pageNum := 0 } } :=
    (h.quiet hq1).of_same rfl rfl (Nat.le_refl _) id rfl
  rw [meets_bind, meets_link, meets_bind, meets_link, meets_pure]
  refine ⟨h2.setIpage hpage rfl rfl, show w1.graph.iwis = w.graph.iwis by rw [hq1.graph], ?_⟩
  rw [hq]
  exact (congrArg (Option.map Ipage.pageNum) (Graph.setIpage_self _ q _)).trans rfl

theorem tables_iwdpStopDevtools : Preserves (TablesBut except) AnyFault (iwdpStopDevtools env q) :=
  fun _ h => (iwdpStopDevtools_kept h).post fun _ _ h' => h'.1

/-- The pages of `ipages` are of the inspector `i`, if of any. -/
def Own (i : Ptr) (w₀ : World) (ipages : List Ptr) : Prop :=
  ∀ q ∈ ipages, ∀ {j iwj n}, w₀.graph.iwis j = some iwj → iwj.pageNumToIpage.lookup n = some q →
    j = i

theorem own_values (h : TablesBut except w) (hi : w.graph.iwis i = some iwi) :
    Own i w iwi.pageNumToIpage.values := by
  intro q hq j iwj n hj hn
  obtain ⟨m, hm⟩ := Table.exists_of_mem_values hq
  exact h.pages.apart hj hi hn hm

variable {ipages : List Ptr}

theorem handling_dropPage {ipage : Ipage} (h : Handling i w₀ except apps w)
    (hq : w.graph.ipages q = some ipage) (hown : Own i w₀ ipages) (hmem : q ∈ ipages)
    (hsub : ∀ q' a, q' ≠ q → except q' a → except' q' a) :
    Meets (dropPage env i q ipage.pageNum) w (fun _ w' => Handling i w₀ except' apps w')
      AnyFault := by
  refine Meets.bind (iwdpStopDevtools_kept h.tables) fun _ w1 ⟨ht, hiwis, hnum⟩ => ?_
  have h1 : Handling i w₀ except apps w1 := h.of_iwis hiwis ht
  rw [meets_bind, modifyIwi, meets_bind, meets_getIwi]
  refine ⟨fun iwi hi => ?_, fun _ => trivial⟩
  rw [meets_link, meets_link]
  have hlookup : ∀ {n q'}, (iwi.pageNumToIpage.erase ipage.pageNum).lookup n = some q' →
      n ≠ ipage.pageNum ∧ iwi.pageNumToIpage.lookup n = some q' := by
    intro n q' hn
    by_cases hnn : n = ipage.pageNum
    · subst hnn
      rw [AList.lookup_erase] at hn
      cases hn
    · rw [AList.lookup_erase_ne hnn] at hn
      exact ⟨hnn, hn⟩
  obtain ⟨iwi', hi', happs, hc⟩ := h1.self
  obtain rfl := Option.some.inj (hi.symm.trans hi')
  have ht2 : TablesBut except { w1 with
      graph := w1.graph.setIwi i
        { iwi with pageNumToIpage := iwi.pageNumToIpage.erase ipage.pageNum } } :=
    ht.setIwi (fun _ _ hex => hex) hi id (fun hn => (hlookup hn).2)
      fun hn hpage hnot => by
        have hknown := ht.known hi (hlookup hn).2 hpage hnot
        exact hknown
  have h2 : Handling i w₀ except apps _ := h1.setIwi ht2 hi rfl happs
  refine h2.of_iwis rfl (h2.tables.freeIpage hsub fun {j iwj n} hj hn => ?_)
  rcases update_some.mp hj with ⟨rfl, rfl⟩ | ⟨hji, hj⟩
  · -- the entry of the page was the one under its number
    obtain ⟨hne, hn⟩ := hlookup hn
    obtain ⟨page, hpage, hpn⟩ := ht.pages.listed hi hn
    rw [hq, hpage, Option.map_some, Option.map_some] at hnum
    exact hne (hpn.symm.trans (Option.some.inj hnum))
  · rw [h1.others j hji] at hj
    exact hji (hown q hmem hj hn)

theorem TablesBut.mono (h : TablesBut except w) (hsub : ∀ q a, except q a → except' q a) :
    TablesBut except' w :=
  ⟨h.pages, fun hi hq hpage hnot => h.known hi hq hpage fun hex => hnot (hsub _ _ hex), h.named,
    h.announced⟩

theorem Handling.mono (h : Handling i w₀ except apps w) (hsub : ∀ q a, except q a → except' q a) :
    Handling i w₀ except' apps w :=
  ⟨h.tables.mono hsub, h.others, h.self⟩

theorem Handling.own (h : Handling i w₀ except apps w) (hi : w.graph.iwis i = some iwi) :
    Own i w₀ iwi.pageNumToIpage.values := by
  intro q hq j iwj n hj hn
  by_contra hji
  rw [← h.others j hji] at hj
  exact hji (own_values h.tables hi q hq hj hn)

variable {appId : Str}

/-- No page is an exception. -/
abbrev noPage : Ptr → Str → Prop := fun _ _ => False

/-! ### Applications that go -/

theorem handling_dropPagesOf {rest : List Ptr} (hown : Own i w₀ ipages)
    (hrest : ∀ q ∈ rest, q ∈ ipages) (h : Handling i w₀ (fun q a => q ∈ rest ∧ a = appId) apps w) :
    Meets (rest.forM fun q => do
      let ipage ← getIpage q
      if appId = ipage.appId then dropPage env i q ipage.pageNum else pure ()) w
      (fun _ w' => Handling i w₀ noPage apps w') AnyFault := by
  induction rest generalizing w with
  | nil => exact h.mono fun _ _ hex => List.not_mem_nil hex.1
  | cons q rest ih =>
    rw [meets_forM_cons, meets_bind, meets_getIpage]
    refine ⟨fun ipage hq => ?_, fun _ => trivial⟩
    have hnext : ∀ {w'}, Handling i w₀ (fun q a => q ∈ rest ∧ a = appId) apps w' →
        Meets (rest.forM _) w' _ _ := fun h' => ih (fun q hq => hrest q (.tail _ hq)) h'
    by_cases happ : appId = ipage.appId
    · rw [if_pos happ]
      refine (handling_dropPage h hq hown (hrest q (.head _)) ?_).post fun _ _ h' => hnext h'
      rintro q' a hne ⟨hmem, ha⟩
      exact ⟨(List.mem_cons.mp hmem).resolve_left hne, ha⟩
    · rw [if_neg happ]
      refine hnext ⟨⟨h.tables.pages, ?_, h.tables.named, h.tables.announced⟩, h.others, h.self⟩
      intro j iwj n q' page hj hn hpage hnot
      refine h.tables.known hj hn hpage fun ⟨hmem, ha⟩ => ?_
      rcases List.mem_cons.mp hmem with rfl | hmem
      · obtain rfl := Option.some.inj (hq.symm.trans hpage)
        exact happ ha.symm
      · exact hnot ⟨hmem, ha⟩

theorem handling_iwdpRemoveAppId (h : Handling i w₀ noPage apps w) (appId : Str) :
    Meets (iwdpRemoveAppId env i appId) w
      (fun _ w' => Handling i w₀ noPage (fun a => apps a ∧ a ≠ appId) w') AnyFault := by
  rw [iwdpRemoveAppId, meets_bind, meets_getIwi]
  refine ⟨fun iwi hi => ?_, fun _ => trivial⟩
  obtain ⟨iwi', hi', happs, -⟩ := h.self
  obtain rfl := Option.some.inj (hi.symm.trans hi')
  by_cases hknown : appId ∈ iwi.appIdToTrue
  · rw [if_neg (not_not_intro hknown), meets_bind, meets_link]
    have ht : TablesBut (fun q a => q ∈ iwi.pageNumToIpage.values ∧ a = appId) { w with
        graph := w.graph.setIwi i { iwi with appIdToTrue := iwi.appIdToTrue.erase appId } } := by
      refine h.tables.setIwi (fun _ _ => False.elim) hi id id fun hn hpage hnot => ?_
      have hmem := h.tables.known hi hn hpage id
      exact AList.mem_erase.mpr ⟨fun ha => hnot ⟨Table.mem_values hn, ha⟩, hmem⟩
    have h1 : Handling i w₀ _ (fun a => apps a ∧ a ≠ appId) _ := h.setIwi ht hi rfl fun a => by
      rw [AList.mem_erase, happs, and_comm]
    exact Meets.bind (handling_dropPagesOf (h.own hi) (fun _ hq => hq) h1) fun _ _ h' => h'
  · rw [if_pos hknown]
    refine h.of_apps fun a => ⟨fun ha => ⟨ha, ?_⟩, And.left⟩
    rintro rfl
    exact hknown ((happs a).mpr ha)

/-! ### Applications that come -/

theorem rpcSendMsg_told {rpc : Rpc} : Meets (rpcSendMsg env i rpc) w (fun _ w' =>
    w'.graph = w.graph ∧ ∃ ok, w'.out = w.out ++ [.rpc i rpc ok]) AnyFault := by
  simp only [rpcSendMsg, meets_bind, meets_getIwi, meets_notNull, meets_getIport, meets_ask,
    meets_emit, meets_pure, implies_true, and_true]
  exact fun _ _ _ _ _ _ => ⟨trivial, _, rfl⟩

theorem handling_iwdpAddAppId (h : Handling i w₀ noPage apps w) (appId : Str) :
    Meets (iwdpAddAppId env i appId) w
      (fun _ w' => Handling i w₀ noPage (fun a => apps a ∨ a = appId) w') AnyFault := by
  rw [iwdpAddAppId, meets_bind, meets_getIwi]
  refine ⟨fun iwi hi => ?_, fun _ => trivial⟩
  obtain ⟨iwi', hi', happs, hc⟩ := h.self
  obtain rfl := Option.some.inj (hi.symm.trans hi')
  by_cases hknown : appId ∈ iwi.appIdToTrue
  · rw [if_pos hknown]
    refine h.of_apps fun a => ⟨.inl, ?_⟩
    rintro (ha | rfl)
    · exact ha
    · exact (happs a).mp hknown
  · obtain ⟨c, hc⟩ := Option.ne_none_iff_exists'.mp hc
    have hlisting : sendForwardGetListing env i iwi.connectionId appId
        = rpcSendMsg env i (.forwardGetListing c appId) := by rw [hc]; rfl
    rw [if_neg hknown, meets_bind, meets_link, meets_bind, meets_emit, hlisting]
    have ht : TablesBut noPage { w with
        graph := w.graph.setIwi i { iwi with appIdToTrue := iwi.appIdToTrue.insert appId () } } := by
      refine h.tables.setIwi (fun _ _ => id) hi id id fun hn hpage hnot => ?_
      exact (AList.mem_insert _).mpr (.inr (h.tables.known hi hn hpage hnot))
    have h1 : Handling i w₀ noPage (fun a => apps a ∨ a = appId) _ := h.setIwi ht hi rfl fun a => by
      rw [AList.mem_insert, happs, or_comm]
    refine rpcSendMsg_told.post fun _ w' ⟨hg, ok, hout⟩ => ?_
    refine h1.of_iwis (congrArg Graph.iwis hg) (h1.tables.out hg ?_)
    rw [hout, List.append_assoc]
    exact h.tables.announced.known

theorem handling_rpcSetApp (app : RpcApp) :
    Preserves (Handling i w₀ noPage apps) AnyFault (rpcSetApp env i app) := by
  intro w h
  rw [rpcSetApp]
  split
  · trivial
  · rw [modifyIwi, meets_bind, meets_getIwi]
    refine ⟨fun iwi hi => ?_, fun _ => trivial⟩
    obtain ⟨iwi', hi', happs, -⟩ := h.self
    obtain rfl := Option.some.inj (hi.symm.trans hi')
    have ht : TablesBut noPage { w with graph := w.graph.setIwi i { iwi with app := some app } } :=
      h.tables.setIwi (fun _ _ => id) hi id id fun hn hpage hnot => by
        have hmem := h.tables.known hi hn hpage hnot
        exact hmem
    exact h.setIwi ht hi rfl happs

/-! ### The list of applications -/

theorem handling_removeStale {listed : List RpcApp} {oas : List Str}
    (h : Handling i w₀ noPage apps w) :
    Meets (oas.forM fun oa => do
      if ∃ a ∈ listed, a.appId = oa then pure ()
      else do
        let _ ← iwdpRemoveAppId env i oa
        pure ()) w
      (fun _ w' => Handling i w₀ noPage
        (fun b => apps b ∧ (b ∈ oas → ∃ a ∈ listed, a.appId = b)) w') AnyFault := by
  induction oas generalizing w apps with
  | nil => exact h.of_apps fun b => ⟨fun hb => ⟨hb, fun hmem => absurd hmem List.not_mem_nil⟩, And.left⟩
  | cons oa oas ih =>
    rw [meets_forM_cons]
    by_cases hlisted : ∃ a ∈ listed, a.appId = oa
    · rw [if_pos hlisted, meets_pure]
      refine (ih h).post fun _ _ h' => h'.of_apps fun b => and_congr_right fun _ => ?_
      refine ⟨fun hb hmem => ?_, fun hb hmem => hb (.tail _ hmem)⟩
      rcases List.mem_cons.mp hmem with rfl | hmem
      · exact hlisted
      · exact hb hmem
    · rw [if_neg hlisted, meets_bind]
      refine (handling_iwdpRemoveAppId h oa).post fun _ _ h' => ?_
      refine meets_pure.mpr ((ih h').post fun _ _ h'' => ?_)
      refine h''.of_apps fun b => ⟨fun ⟨⟨hb, hne⟩, himp⟩ => ⟨hb, fun hmem => ?_⟩, fun ⟨hb, himp⟩ =>
        ⟨⟨hb, ?_⟩, fun hmem => himp (.tail _ hmem)⟩⟩
      · exact himp ((List.mem_cons.mp hmem).resolve_left hne)
      · rintro rfl
        exact hlisted (himp (.head _))

theorem handling_addListed {listed : List RpcApp} (h : Handling i w₀ noPage apps w) :
    Meets (listed.forM fun a => do
      rpcSetApp env i a
      let _ ← iwdpAddAppId env i a.appId
      pure ()) w
      (fun _ w' => Handling i w₀ noPage (fun b => apps b ∨ ∃ a ∈ listed, a.appId = b) w')
      AnyFault := by
  induction listed generalizing w apps with
  | nil => exact h.of_apps fun b => ⟨.inl, fun hb => hb.elim id fun ⟨_, hmem, _⟩ =>
    absurd hmem List.not_mem_nil⟩
  | cons a listed ih =>
    rw [meets_forM_cons]
    refine (handling_rpcSetApp a w h).bind fun _ w1 h1 => ?_
    refine (handling_iwdpAddAppId h1 a.appId).bind fun _ w2 h2 => ?_
    refine (ih h2).post fun _ _ h3 => h3.of_apps fun b => ?_
    rw [List.exists_mem_cons_iff, or_assoc, eq_comm]

/-- **The list is what the inspector knows.** -/
theorem iwdpOnReportConnectedApplicationList_keys {listed : List RpcApp}
    (h : Handling i w₀ noPage apps w) (hne : listed ≠ []) :
    Meets (iwdpOnReportConnectedApplicationList env i listed) w
      (fun ok w' => ok = true ∧ Handling i w₀ noPage (fun b => ∃ a ∈ listed, a.appId = b) w')
      AnyFault := by
  rw [iwdpOnReportConnectedApplicationList, meets_bind, meets_getIwi]
  refine ⟨fun iwi hi => ?_, fun _ => trivial⟩
  obtain ⟨iwi', hi', happs, -⟩ := h.self
  obtain rfl := Option.some.inj (hi.symm.trans hi')
  rw [if_neg hne]
  refine (handling_removeStale h).bind fun _ w1 h1 => ?_
  refine (handling_addListed h1).bind fun _ w2 h2 => ⟨rfl, h2.of_apps fun b => ?_⟩
  refine ⟨fun hb => hb.elim (fun ⟨hb, himp⟩ => himp ?_) id, .inr⟩
  exact AList.mem_keys.mpr ((happs b).mpr hb)

theorem handling_report (listed : List RpcApp) (h : Handling i w₀ noPage apps w) :
    Meets (iwdpOnReportConnectedApplicationList env i listed) w
      (fun _ w' => ∃ apps', Handling i w₀ noPage apps' w') AnyFault := by
  by_cases hne : listed = []
  · rw [iwdpOnReportConnectedApplicationList, meets_bind, meets_getIwi]
    refine ⟨fun iwi _ => ?_, fun _ => trivial⟩
    rw [if_pos hne]
    exact ⟨apps, h⟩
  · exact (iwdpOnReportConnectedApplicationList_keys h hne).post fun _ _ h' => ⟨_, h'.2⟩

/-! ### Listings -/

theorem findPage_same {pageId : Nat} :
    Meets (findPage appId pageId ipages) w (fun _ w' => w = w') AnyFault := by
  induction ipages with
  | nil => rfl
  | cons q qs ih =>
    rw [findPage, meets_bind, meets_getIpage]
    refine ⟨fun ipage _ => ?_, fun _ => trivial⟩
    split
    · rfl
    · exact ih

theorem handling_newPage (h : Handling i w₀ noPage apps w) (happ : apps appId) (pageId : Nat) :
    Meets (newPage i appId pageId) w
      (fun _ w' => Handling i w₀ noPage apps w') AnyFault := by
  simp only [newPage, meets_bind, meets_malloc, meets_getIwi, meets_link, meets_pure]
  refine ⟨fun iwi hi => ?_, fun _ => trivial⟩
  obtain ⟨iwi', hi', happs, hc⟩ := h.self
  obtain rfl := Option.some.inj (hi.symm.trans hi')
  obtain ⟨⟨hlisted, hapart, hlt⟩, hknown, hnamed, hann⟩ := h.tables
  generalize hnum : (iwi.maxPageNum + 1) % 2 ^ 32 = num
  have hold : ∀ {j iwj n q}, w.graph.iwis j = some iwj → iwj.pageNumToIpage.lookup n = some q →
      q ≠ w.graph.fresh := by
    intro j iwj n q hj hn
    obtain ⟨page, hpage, -⟩ := hlisted hj hn
    exact Nat.ne_of_lt (hlt hpage)
  -- an entry is an old one, or the new one
  have hentry : ∀ {n q}, (iwi.pageNumToIpage.insert num w.graph.fresh).lookup n = some q →
      n = num ∧ q = w.graph.fresh ∨ n ≠ num ∧ iwi.pageNumToIpage.lookup n = some q := by
    intro n q hn
    by_cases hnn : n = num
    · subst hnn
      rw [AList.lookup_insert] at hn
      exact .inl ⟨rfl, (Option.some.inj hn).symm⟩
    · rw [AList.lookup_insert_ne hnn] at hn
      exact .inr ⟨hnn, hn⟩
  refine ⟨⟨⟨?_, ?_, ?_⟩, ?_, ?_, hann⟩, ?_, ?_⟩
  · intro j iwj n q hj hn
    rcases update_some.mp hj with ⟨rfl, rfl⟩ | ⟨-, hj⟩
    · rcases hentry hn with ⟨rfl, rfl⟩ | ⟨-, hn⟩
      · exact ⟨_, Graph.setIpage_self _ _ _, rfl⟩
      · obtain ⟨page, hpage, hpn⟩ := hlisted hi hn
        exact ⟨page, update_some.mpr (.inr ⟨hold hi hn, hpage⟩), hpn⟩
    · obtain ⟨page, hpage, hpn⟩ := hlisted hj hn
      exact ⟨page, update_some.mpr (.inr ⟨hold hj hn, hpage⟩), hpn⟩
  · intro j k iwj iwk n m q hj hk hn hm
    rcases update_some.mp hj with ⟨rfl, rfl⟩ | ⟨-, hj0⟩
    · rcases update_some.mp hk with ⟨rfl, rfl⟩ | ⟨-, hk0⟩
      · rfl
      · rcases hentry hn with ⟨-, rfl⟩ | ⟨-, hn0⟩
        · exact absurd rfl (hold hk0 hm)
        · exact hapart hi hk0 hn0 hm
    · rcases update_some.mp hk with ⟨rfl, rfl⟩ | ⟨-, hk0⟩
      · rcases hentry hm with ⟨-, rfl⟩ | ⟨-, hm0⟩
        · exact absurd rfl (hold hj0 hn)
        · exact hapart hj0 hi hn hm0
      · exact hapart hj0 hk0 hn hm
  · intro q page hpage
    rcases update_some.mp hpage with ⟨rfl, -⟩ | ⟨-, hpage0⟩
    · exact Nat.lt_succ_self _
    · exact Nat.lt_succ_of_lt (hlt hpage0)
  · intro j iwj n q page hj hn hpage hnot
    rcases update_some.mp hpage with ⟨rfl, rfl⟩ | ⟨hq, hpage0⟩
    · rcases update_some.mp hj with ⟨rfl, rfl⟩ | ⟨-, hj0⟩
      · exact (happs appId).mpr happ
      · exact absurd rfl (hold hj0 hn)
    · rcases update_some.mp hj with ⟨rfl, rfl⟩ | ⟨-, hj0⟩
      · rcases hentry hn with ⟨-, rfl⟩ | ⟨-, hn0⟩
        · exact absurd rfl hq
        · have hmem := hknown hi hn0 hpage0 hnot
          exact hmem
      · exact hknown hj0 hn hpage0 hnot
  · intro fd j hfd
    obtain ⟨hj, hid⟩ := hnamed hfd
    refine ⟨Nat.lt_succ_of_lt hj, fun hiwj => ?_⟩
    rcases update_some.mp hiwj with ⟨rfl, rfl⟩ | ⟨-, hiwj⟩
    · exact hc
    · exact hid hiwj
  · intro j hj
    exact (Function.update_of_ne hj _ _).trans (h.others j hj)
  · exact ⟨_, Graph.setIwi_self _ _ _, happs, hc⟩

theorem handling_modifyIpage {f : Ipage → Ipage} (hnum : ∀ ipage, (f ipage).pageNum = ipage.pageNum)
    (happ : ∀ ipage, (f ipage).appId = ipage.appId) :
    Preserves (Handling i w₀ noPage apps) AnyFault (modifyIpage q f) := by
  intro w h
  rw [modifyIpage, meets_bind, meets_getIpage]
  refine ⟨fun ipage hq => ?_, fun _ => trivial⟩
  exact h.of_iwis rfl (h.tables.setIpage hq (hnum ipage) (happ ipage))

theorem handling_loseClaimed {ipage : Ipage} {page : RpcPage} :
    Preserves (Handling i w₀ noPage apps) AnyFault (loseClaimed iwi ipage page) := by
  intro w h
  unfold loseClaimed
  split
  · exact h
  split
  · rw [meets_bind, meets_getOwner]
    refine ⟨fun iws _ => ?_, fun _ => trivial⟩
    exact h.of_iwis rfl (h.tables.of_same rfl rfl (Nat.le_refl _) id rfl)
  · exact h

theorem handling_listPage (happ : apps appId) (ipages : List Ptr) (page : RpcPage) :
    Preserves (Handling i w₀ noPage apps) AnyFault (listPage i appId ipages page) := by
  intro w h
  refine findPage_same.bind fun found _ hw => ?_
  subst hw
  have hnew : Meets (orNewPage i appId page.pageId found) w
      (fun _ w' => Handling i w₀ noPage apps w') AnyFault := by
    unfold orNewPage
    split
    · exact h
    · exact handling_newPage h happ _
  refine hnew.bind fun q w1 h1 => ?_
  refine Meets.bind (handling_modifyIpage ?_ ?_ w1 h1) fun _ w2 h2 => ?_
  · exact fun _ => rfl
  · exact fun _ => rfl
  rw [meets_bind, meets_getIpage]
  refine ⟨fun ipage _ => ?_, fun _ => trivial⟩
  rw [meets_bind, meets_getIwi]
  refine ⟨fun iwi _ => ?_, fun _ => trivial⟩
  refine (handling_loseClaimed w2 h2).bind fun _ w3 h3 => ?_
  refine handling_modifyIpage ?_ ?_ w3 h3
  · exact fun _ => rfl
  · exact fun _ => rfl

theorem handling_unlistPage {pages : List RpcPage} (hown : Own i w₀ ipages) (hmem : q ∈ ipages) :
    Preserves (Handling i w₀ noPage apps) AnyFault (unlistPage env i appId pages q) := by
  intro w h
  rw [unlistPage, meets_bind, meets_getIpage]
  refine ⟨fun ipage hq => ?_, fun _ => trivial⟩
  split
  · exact h
  split
  · exact h
  · exact handling_dropPage h hq hown hmem fun _ _ _ => id

theorem handling_iwdpOnApplicationSentListing (appId : Str) (pages : List RpcPage)
    (h : Handling i w₀ noPage apps w) :
    Meets (iwdpOnApplicationSentListing env i appId pages) w
      (fun _ w' => Handling i w₀ noPage apps w') AnyFault := by
  rw [iwdpOnApplicationSentListing, meets_bind, meets_getIwi]
  refine ⟨fun iwi hi => ?_, fun _ => trivial⟩
  obtain ⟨iwi', hi', happs, hc⟩ := h.self
  obtain rfl := Option.some.inj (hi.symm.trans hi')
  split
  · exact h
  rw [meets_bind, meets_getIport]
  refine ⟨fun iport _ => ?_, fun _ => trivial⟩
  by_cases hknown : appId ∈ iwi.appIdToTrue
  · rw [if_neg (not_not_intro hknown)]
    have happ := (happs appId).mp hknown
    refine Meets.bind (Meets.forM (fun page _ => handling_listPage happ _ page) h) fun _ w1 h1 => ?_
    exact Meets.bind (Meets.forM (fun q hq => handling_unlistPage (h.own hi) hq) h1) fun _ _ h2 => h2
  · rw [if_pos hknown]
    split
    · next app _ =>
      obtain ⟨c, hc⟩ := Option.ne_none_iff_exists'.mp hc
      have hlisting : sendForwardGetListing env i iwi.connectionId app.appId
          = rpcSendMsg env i (.forwardGetListing c app.appId) := by rw [hc]; rfl
      rw [meets_bind, meets_emit, hlisting]
      refine rpcSendMsg_told.post fun _ w' ⟨hg, ok, hout⟩ => ?_
      refine h.of_iwis (congrArg Graph.iwis hg) (h.tables.out hg ?_)
      rw [hout, List.append_assoc]
      exact h.tables.announced.unknown
    · exact h

/-! ### Any message -/

theorem handling_onMessage (message : Message) (h : Handling i w₀ noPage apps w) :
    Meets (onMessage env i message) w (fun _ w' => ∃ apps', Handling i w₀ noPage apps' w')
      AnyFault := by
  have hquiet : ∀ {m : Handler Bool}, Preserves (Quiet w) AnyFault m →
      Meets m w (fun _ w' => ∃ apps', Handling i w₀ noPage apps' w') AnyFault :=
    fun hm => (hm w (Quiet.refl w)).post fun _ _ hq => ⟨apps, h.quiet hq⟩
  cases message with
  | reportSetup =>
    refine hquiet ?_
    refine quiet_follow_bind (fun _ => trivial) fun _ _ => ?_
    refine quiet_notNull_bind trivial fun _ _ => ?_
    exact quiet_follow_bind (fun _ => trivial) fun _ _ => preserves_pure _
  | reportConnectedApplicationList listed => exact handling_report listed h
  | applicationConnected app =>
    refine (handling_rpcSetApp app w h).bind fun _ _ h1 => ?_
    exact (handling_iwdpAddAppId h1 app.appId).post fun _ _ h2 => ⟨_, h2⟩
  | applicationDisconnected app =>
    exact (handling_iwdpRemoveAppId h app.appId).post fun _ _ h1 => ⟨_, h1⟩
  | applicationSentListing appId pages =>
    exact (handling_iwdpOnApplicationSentListing appId pages h).post fun _ _ h1 => ⟨_, h1⟩
  | applicationSentData destId data =>
    refine hquiet ?_
    refine quiet_follow_bind (fun _ => trivial) fun iwi _ => ?_
    refine quiet_notNull_bind trivial fun p _ => ?_
    refine quiet_follow_bind (fun _ => trivial) fun iport _ => ?_
    split
    · exact preserves_pure _
    · exact quiet_sendFrame env (fun _ => trivial) (Sound.all _) _
  | applicationUpdated appId destId =>
    refine (handling_iwdpRemoveAppId h appId).bind fun ok _ h1 => ?_
    split
    · exact (handling_iwdpAddAppId h1 destId).post fun _ _ h2 => ⟨_, h2⟩
    · exact ⟨_, h1⟩
  | reportConnectedDriverList => exact ⟨apps, h⟩

end Messages

end IDeviceStack.WebkitProxy.Iwdp
