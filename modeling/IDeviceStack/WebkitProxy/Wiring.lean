/-
# `WebkitProxy.Wiring` — ports, inspectors and their descriptors

A port of a device and its inspector point to each other, and `fd_to_value` points to both; the
handlers take these links apart one by one, in the middle of closing other things.

**Proved here.**  `wired_removeFdAt`, `wired_handle`.
-/
import IDeviceStack.WebkitProxy.Kin

namespace IDeviceStack.WebkitProxy.Iwdp

open Lib Libplist Function Option

/-! ## A device that goes -/

namespace Graph

/-- An inspector and its descriptor are gone. -/
def dropIwi (g : Graph) (i : Ptr) (fd : Nat) : Graph := ((g.takeValue fd).freeIwi i).clearFd fd

/-- What becomes of an inspector that has lost its port: it stays if it has no descriptor. -/
def loseIwi (g : Graph) : Option (Ptr × Iwi) → Graph
  | none => g
  | some (i, iwi) =>
    if 0 < iwi.wiFd then g.dropIwi i iwi.wiFd else g.setIwi i { iwi with iport := none }

/-- `keepOrFree`, for a port that has lost everything. -/
def shutPort (g : Graph) (p : Ptr) (iport : Iport) : Graph :=
  if iport.isSticky then g.setIport p { iport with sFd := 0, wsIdToIws := ∅, iwi := none }
  else { g.freeIport p with deviceIdToIport := g.deviceIdToIport.erase iport.deviceId }

end Graph

section Removed

variable {env : Outside} {w : World} {E : Fault → Prop} {p i : Ptr} {iport : Iport} {iwi : Iwi}
  {levels : Nat}

theorem meets_freePages {ipages : List Ptr} (hpages : ipages = [] ∨ E .ipageFreed) :
    Meets (freePages ipages) w
      (fun _ w' => ∃ ipages', w' = { w with graph := { w.graph with ipages := ipages' } }) E := by
  rcases hpages with rfl | hE
  · exact ⟨w.graph.ipages, rfl⟩
  refine Meets.forM (fun q _ w' hw' => ?_) ⟨w.graph.ipages, rfl⟩
  obtain ⟨ipages', rfl⟩ := hw'
  rw [meets_bind, meets_getIpage]
  exact ⟨fun _ _ => ⟨_, rfl⟩, fun _ => hE⟩

theorem meets_removeIwi {fd : Nat} (hmem : fd ∈ w.graph.allFds)
    (hfd : w.graph.fdToValue fd = some (.iwi i)) (hi : w.graph.iwis i = some iwi)
    (hport : iwi.iport = none) (hpages : iwi.pageNumToIpage = ∅ ∨ E .ipageFreed)
    (hlevels : 0 < levels ∨ E .depth) :
    Meets (removeFdAt env levels fd) w
      (fun _ w' => ∃ ipages, w'.graph = { w.graph.dropIwi i fd with ipages := ipages }) E := by
  cases levels with
  | zero => exact hlevels.resolve_left (Nat.lt_irrefl 0)
  | succ levels =>
  rw [removeFdAt, meets_bind, meets_get, if_pos hmem, hfd]
  rw [meets_bind, meets_link, iwdpOnClose, iwdpIwiClose, meets_bind, meets_bind, meets_getIwi]
  refine ⟨fun iwi' hi' => ?_, fun hnone => ?_⟩
  · obtain rfl := some.inj (hi.symm.trans hi')
    rw [hport, forgetIwi, meets_bind, meets_pure, meets_bind, meets_link]
    refine Meets.bind (meets_freePages ?_) fun _ w' hw' => ?_
    · refine hpages.imp_left fun hempty => ?_
      rw [hempty]
      rfl
    obtain ⟨ipages, rfl⟩ := hw'
    rw [meets_bind, meets_link, closePort, meets_bind, meets_pure, meets_pure, meets_bind,
      meets_link, meets_pure]
    refine ⟨ipages, ?_⟩
    simp only [Graph.dropIwi, Graph.clearFd, Graph.freeIwi, Graph.setIwi, Graph.takeValue,
      update_idem]
  · rw [Graph.takeValue, hi] at hnone
    cases hnone

theorem setIport_self {g : Graph} (hp : g.iports p = some iport) : g.setIport p iport = g := by
  rw [Graph.setIport, ← hp, update_eq_self]

theorem loseIwi_setIport (g : Graph) (o : Option (Ptr × Iwi)) :
    (g.setIport p iport).loseIwi o = (g.loseIwi o).setIport p iport := by
  cases o with
  | none => rfl
  | some o =>
    rw [Graph.loseIwi, Graph.loseIwi]
    split
    · rfl
    · rfl

/-- The inspector of a port, with its contents. -/
structure Linked (g : Graph) (iport : Iport) (o : Option (Ptr × Iwi)) : Prop where
  ptr : o.map Prod.fst = iport.iwi
  iwi : ∀ i iwi, o = some (i, iwi) → g.iwis i = some iwi

/-- What `iwdp_iport_close` finds out about the inspector of a port. -/
def Removable (E : Fault → Prop) (g : Graph) (iport : Iport) : Prop :=
  ∀ i, iport.iwi = some i → ∃ iwi, g.iwis i = some iwi ∧
    (0 < iwi.wiFd → g.fdToValue iwi.wiFd = some (.iwi i)) ∧
    (iwi.pageNumToIpage = ∅ ∨ E .ipageFreed)

theorem meets_closeIwi (hsockets : Sockets w.graph) (hp : w.graph.iports p = some iport)
    (hiwi : Removable E w.graph iport) (hlevels : 0 < levels ∨ E .depth) :
    Meets (closeIwi (removeFdAt env levels) p) w
      (fun _ w' => ∃ o ipages, Linked w.graph iport o ∧ w'.graph =
        { (w.graph.loseIwi o).setIport p { iport with iwi := none } with ipages := ipages }) E := by
  rw [closeIwi, meets_bind, meets_getIport]
  refine ⟨fun iport' hp' => ?_, fun hnone => ?_⟩
  · obtain rfl := some.inj (hp.symm.trans hp')
    cases hlink : iport.iwi with
    | none =>
      refine ⟨none, w.graph.ipages, ⟨hlink.symm, nofun⟩, ?_⟩
      have hsame : { iport with iwi := none } = iport := by rw [← hlink]
      rw [hsame, Graph.loseIwi, setIport_self hp]
    | some i =>
      obtain ⟨iwi, hi, hvalue, hpages⟩ := hiwi i hlink
      rw [meets_bind, meets_getIwi]
      refine ⟨fun iwi' hi' => ?_, fun hnone => ?_⟩
      · obtain rfl := some.inj (hi.symm.trans hi')
        rw [meets_bind, meets_link, meets_bind, meets_link]
        have hlinked : Linked w.graph iport (some (i, iwi)) := by
          refine ⟨hlink.symm, ?_⟩
          rintro _ _ ⟨⟩
          exact hi
        by_cases hpos : 0 < iwi.wiFd
        · rw [removeIfOpen, if_pos hpos]
          refine Meets.bind (meets_removeIwi (hsockets.registered (hvalue hpos)) (hvalue hpos)
            (Graph.setIwi_self _ _ _) rfl hpages hlevels) fun _ w' ⟨ipages, hw'⟩ => ?_
          refine ⟨_, ipages, hlinked, hw'.trans ?_⟩
          rw [Graph.loseIwi, if_pos hpos]
          simp only [Graph.dropIwi, Graph.clearFd, Graph.freeIwi, Graph.setIwi, Graph.takeValue,
            Graph.setIport, update_idem]
        · rw [removeIfOpen, if_neg hpos]
          refine ⟨_, w.graph.ipages, hlinked, ?_⟩
          rw [Graph.loseIwi, if_neg hpos]
          rfl
      · rw [hi] at hnone
        cases hnone
  · rw [hp] at hnone
    cases hnone

theorem meets_iwdpIportClose (hsockets : Sockets w.graph) (hp : w.graph.iports p = some iport)
    (htable : w.graph.deviceIdToIport.lookup iport.deviceId = some p)
    (hiwi : Removable E w.graph iport) (hE : iport.wsIdToIws = ∅ ∨ ∀ f, E f)
    (hlevels : 0 < levels ∨ E .depth) :
    Meets (iwdpIportClose (removeFdAt env levels) p) w
      (fun _ w' => ∃ w1 iport1 o ipages, Trimmed w.graph w1 ∧ (iport.wsIdToIws = ∅ → w1 = w) ∧
        w1.graph.iports p = some iport1 ∧ Linked w1.graph iport1 o ∧
        w'.graph = { (w1.graph.loseIwi o).shutPort p iport1 with ipages := ipages }) E := by
  rw [iwdpIportClose, meets_bind, meets_getIport]
  refine ⟨fun iport' hp' => ?_, fun hnone => ?_⟩
  · obtain rfl := some.inj (hp.symm.trans hp')
    rw [meets_bind, meets_get, if_neg (not_not.mpr htable)]
    have hclients : Meets (closeClients (removeFdAt env levels) iport.wsIdToIws.values) w
        (fun _ w1 => Trimmed w.graph w1 ∧ (iport.wsIdToIws = ∅ → w1 = w)) E := by
      by_cases hempty : iport.wsIdToIws = ∅
      · rw [hempty]
        exact ⟨Trimmed.refl hsockets, fun _ => rfl⟩
      · have hclose : Meets (closeClients (removeFdAt env levels) iport.wsIdToIws.values) w
            (fun _ => Trimmed w.graph) AnyFault := by
          refine Meets.forM (fun s _ w1 h1 => ?_) (Trimmed.refl hsockets)
          rw [meets_bind, meets_getIws]
          exact ⟨fun iws hs => trimmed_removeWs (removesClients _) h1 hs, fun _ => trivial⟩
        exact hclose.mono (fun _ _ h1 => ⟨h1, fun h => absurd h hempty⟩)
          fun f _ => hE.resolve_left hempty f
    refine hclients.bind fun _ w1 ⟨h1, hsame⟩ => ?_
    have hiwi1 : Removable E w1.graph iport := by
      rcases hE with hempty | hE
      · rw [hsame hempty]
        exact hiwi
      · intro i hlink
        obtain ⟨iwi, hi, hvalue, -⟩ := hiwi i hlink
        obtain ⟨iwi1, hi1, hlinks⟩ := h1.fewer.kin.iwi_to hi
        have hfd : iwi.wiFd = iwi1.wiFd := congrArg Prod.snd hlinks
        refine ⟨iwi1, hi1, fun hpos => ?_, .inr (hE _)⟩
        rw [← hfd] at hpos ⊢
        exact (h1.fewer.kin.value (v := .iwi i) trivial).mpr (hvalue hpos)
    obtain ⟨iport1, hp1, hlinks⟩ := h1.fewer.kin.iport_to hp
    have hlink : iport.iwi = iport1.iwi := congrArg (·.2.2.2) hlinks
    rw [meets_bind, meets_getIport]
    refine ⟨fun iport1' hp1' => ?_, fun hnone => ?_⟩
    · obtain rfl := some.inj (hp1.symm.trans hp1')
      rw [meets_bind, meets_link]
      have hiwi2 : Removable E w1.graph { iport1 with wsIdToIws := ∅ } := fun i hlink1 =>
        hiwi1 i (hlink.trans hlink1)
      refine Meets.bind (meets_closeIwi (h1.sockets.setIport p _) (update_self _ _ _) hiwi2
        hlevels) fun _ w2 ⟨o, ipages, hlinked, hw2⟩ => ?_
      have hp2 : w2.graph.iports p = some { iport1 with wsIdToIws := ∅, iwi := none } := by
        rw [hw2]
        exact update_self _ _ _
      have hkeep : Meets (keepOrFree p) w2 (fun _ w' => w'.graph =
          { (w1.graph.loseIwi o).shutPort p iport1 with ipages := ipages }) E := by
        rw [keepOrFree, meets_bind, meets_getIport]
        refine ⟨fun iport2 hp2' => ?_, fun hnone => ?_⟩
        · obtain rfl := some.inj (hp2.symm.trans hp2')
          rw [loseIwi_setIport] at hw2
          simp only [Graph.shutPort]
          split
          · rw [meets_link, hw2]
            simp only [Graph.setIport, update_idem]
          · rw [meets_link, hw2]
            simp only [Graph.setIport, Graph.freeIport, update_idem]
        · rw [hp2] at hnone
          cases hnone
      refine hkeep.bind fun _ w' hw' => ⟨w1, iport1, o, ipages, h1, hsame, hp1, ?_, hw'⟩
      exact ⟨hlinked.ptr, hlinked.iwi⟩
    · rw [hp1] at hnone
      cases hnone
  · rw [hp] at hnone
    cases hnone

end Removed

/-! ## The links -/

/-- The register of devices: an identifier, a descriptor and a port. -/
abbrev Register := Str → Nat → Int → Prop

/-- The links of ports and inspectors, but for the ports that are being closed. -/
structure Ports (register : Register) (busy : Ptr → Prop) (g : Graph) : Prop where
  ofPort : ∀ {fd p}, g.fdToValue fd = some (.iport p) →
    ∃ iport, g.iports p = some iport ∧ iport.sFd = fd
  ofIwi : ∀ {fd i}, g.fdToValue fd = some (.iwi i) →
    ∃ iwi p, g.iwis i = some iwi ∧ iwi.wiFd = fd ∧ iwi.iport = some p
  portFd : ∀ {p iport}, g.iports p = some iport → 0 < iport.sFd →
    g.fdToValue iport.sFd = some (.iport p) ∨ busy p
  portIwi : ∀ {p iport i}, g.iports p = some iport → iport.iwi = some i →
    ∃ iwi, g.iwis i = some iwi ∧ iwi.iport = some p ∧
      (0 < iwi.wiFd → g.fdToValue iwi.wiFd = some (.iwi i)) ∧ (0 < iwi.wiFd ∨ busy p)
  iwiPort : ∀ {i iwi p}, g.iwis i = some iwi → iwi.iport = some p →
    ∃ iport, g.iports p = some iport ∧ iport.iwi = some i
  table : ∀ {k p}, g.deviceIdToIport.lookup k = some p →
    ∃ iport, g.iports p = some iport ∧ iport.deviceId = k
  inTable : ∀ {p iport}, g.iports p = some iport → g.deviceIdToIport.lookup iport.deviceId = some p
  opened : ∀ {p iport d}, g.iports p = some iport → 0 < iport.sFd → iport.deviceId = some d →
    iport.iwi.isSome ∧ register d iport.sFd iport.port ∨ busy p
  shut : ∀ {p iport}, g.iports p = some iport → iport.sFd = 0 →
    iport.iwi = none ∧ iport.wsIdToIws = ∅
  freshPort : ∀ {p iport}, g.iports p = some iport → p < g.fresh
  freshIwi : ∀ {i iwi}, g.iwis i = some iwi → i < g.fresh

/-- No port is being closed. -/
def noPort : Ptr → Prop := fun _ => False

theorem ports_start (register : Register) : Ports register noPort Graph.empty where
  ofPort := nofun
  ofIwi := nofun
  portFd := nofun
  portIwi := nofun
  iwiPort := nofun
  table h := by
    rw [Graph.empty, AList.lookup_empty] at h
    cases h
  inTable := nofun
  opened := nofun
  shut := nofun
  freshPort := nofun
  freshIwi := nofun

section Ports

variable {register register' : Register} {busy : Ptr → Prop} {g g' : Graph} {p i : Ptr}
  {iport : Iport} {iwi : Iwi}

theorem Ports.mono (h : Ports register noPort g)
    (hregister : ∀ d fd port, register d fd port → register' d fd port) :
    Ports register' busy g where
  ofPort := h.ofPort
  ofIwi := h.ofIwi
  portFd hp hpos := .inl ((h.portFd hp hpos).resolve_right id)
  portIwi hp hlink := by
    obtain ⟨iwi, hi, hport, hvalue, hpos⟩ := h.portIwi hp hlink
    exact ⟨iwi, hi, hport, hvalue, .inl (hpos.resolve_right id)⟩
  iwiPort := h.iwiPort
  table := h.table
  inTable := h.inTable
  opened hp hpos hd := .inl (((h.opened hp hpos hd).resolve_right id).imp_right (hregister _ _ _))
  shut := h.shut
  freshPort := h.freshPort
  freshIwi := h.freshIwi

theorem Ports.kin (h : Ports register busy g) (hk : Kin g g') : Ports register busy g' where
  ofPort hv := by
    obtain ⟨iport, hp, hfd⟩ := h.ofPort ((hk.value (v := .iport _) trivial).mp hv)
    obtain ⟨iport', hp', hlinks⟩ := hk.iport_to hp
    exact ⟨iport', hp', (congrArg (·.2.1) hlinks).symm.trans hfd⟩
  ofIwi hv := by
    obtain ⟨iwi, p, hi, hfd, hport⟩ := h.ofIwi ((hk.value (v := .iwi _) trivial).mp hv)
    obtain ⟨iwi', hi', hlinks⟩ := hk.iwi_to hi
    exact ⟨iwi', p, hi', (congrArg Prod.snd hlinks).symm.trans hfd,
      (congrArg Prod.fst hlinks).symm.trans hport⟩
  portFd hp' hpos := by
    obtain ⟨iport, hp, hlinks⟩ := hk.iport_of hp'
    have hfd := congrArg (·.2.1) hlinks
    dsimp only [Iport.links] at hfd
    rw [hfd] at hpos ⊢
    exact (h.portFd hp hpos).imp_left fun hv => (hk.value (v := .iport _) trivial).mpr hv
  portIwi hp' hlink := by
    obtain ⟨iport, hp, hlinks⟩ := hk.iport_of hp'
    obtain ⟨iwi, hi, hport, hvalue, hpos⟩ :=
      h.portIwi hp ((congrArg (·.2.2.2) hlinks).symm.trans hlink)
    obtain ⟨iwi', hi', hlinks'⟩ := hk.iwi_to hi
    have hfd : iwi.wiFd = iwi'.wiFd := congrArg Prod.snd hlinks'
    rw [hfd] at hpos hvalue
    exact ⟨iwi', hi', (congrArg Prod.fst hlinks').symm.trans hport,
      fun hpos => (hk.value (v := .iwi _) trivial).mpr (hvalue hpos), hpos⟩
  iwiPort hi' hport := by
    obtain ⟨iwi, hi, hlinks⟩ := hk.iwi_of hi'
    obtain ⟨iport, hp, hlink⟩ := h.iwiPort hi ((congrArg Prod.fst hlinks).symm.trans hport)
    obtain ⟨iport', hp', hlinks'⟩ := hk.iport_to hp
    exact ⟨iport', hp', (congrArg (·.2.2.2) hlinks').symm.trans hlink⟩
  table hkey := by
    rw [hk.table] at hkey
    obtain ⟨iport, hp, hd⟩ := h.table hkey
    obtain ⟨iport', hp', hlinks⟩ := hk.iport_to hp
    exact ⟨iport', hp', (congrArg (·.2.2.1) hlinks).symm.trans hd⟩
  inTable hp' := by
    obtain ⟨iport, hp, hlinks⟩ := hk.iport_of hp'
    have hd := congrArg (·.2.2.1) hlinks
    dsimp only [Iport.links] at hd
    rw [hk.table, hd]
    exact h.inTable hp
  opened hp' hpos hd := by
    obtain ⟨iport, hp, hlinks⟩ := hk.iport_of hp'
    simp only [Iport.links, Prod.mk.injEq] at hlinks
    obtain ⟨hport, hfd, hid, hlink⟩ := hlinks
    rw [hfd] at hpos ⊢
    rw [hport, hlink]
    exact h.opened hp hpos (hid.symm.trans hd)
  shut hp' hzero := by
    obtain ⟨iport, hp, hlinks⟩ := hk.iport_of hp'
    have hzero' : iport.sFd = 0 := (congrArg (·.2.1) hlinks).symm.trans hzero
    obtain ⟨hnone, hempty⟩ := h.shut hp hzero'
    exact ⟨(congrArg (·.2.2.2) hlinks).trans hnone, hk.clients hp hp' hzero' hempty⟩
  freshPort hp' := by
    obtain ⟨iport, hp, -⟩ := hk.iport_of hp'
    exact Nat.lt_of_lt_of_le (h.freshPort hp) hk.fresh
  freshIwi hi' := by
    obtain ⟨iwi, hi, -⟩ := hk.iwi_of hi'
    exact Nat.lt_of_lt_of_le (h.freshIwi hi) hk.fresh

theorem Ports.takeValue (h : Ports register (· = p) g) {fd : Nat}
    (hfd : g.fdToValue fd = some (.iport p)) : Ports register (· = p) (g.takeValue fd) where
  ofPort hv := h.ofPort (update_none.mp hv).2
  ofIwi hv := h.ofIwi (update_none.mp hv).2
  portFd {p' iport} hp hpos := by
    by_cases heq : p' = p
    · exact .inr heq
    · have hvalue := (h.portFd hp hpos).resolve_right heq
      refine .inl (update_none.mpr ⟨?_, hvalue⟩)
      rintro rfl
      rw [hvalue] at hfd
      cases hfd
      exact heq rfl
  portIwi hp hlink := by
    obtain ⟨iwi, hi, hport, hvalue, hpos⟩ := h.portIwi hp hlink
    refine ⟨iwi, hi, hport, fun hpos => update_none.mpr ⟨?_, hvalue hpos⟩, hpos⟩
    rintro rfl
    rw [hvalue hpos] at hfd
    cases hfd
  iwiPort := h.iwiPort
  table := h.table
  inTable := h.inTable
  opened := h.opened
  shut := h.shut
  freshPort := h.freshPort
  freshIwi := h.freshIwi

theorem iwis_loseIwi {j : Ptr} {iwj : Iwi} (hj : (g.loseIwi (some (i, iwi))).iwis j = some iwj) :
    j ≠ i ∧ g.iwis j = some iwj ∨ j = i ∧ iwj = { iwi with iport := none } := by
  rw [Graph.loseIwi] at hj
  split at hj
  · exact .inl (update_none.mp hj)
  · rcases update_some.mp hj with ⟨rfl, rfl⟩ | hj
    · exact .inr ⟨rfl, rfl⟩
    · exact .inl hj

theorem iwis_loseIwi_of_ne {j : Ptr} {iwj : Iwi} (hne : j ≠ i) (hj : g.iwis j = some iwj) :
    (g.loseIwi (some (i, iwi))).iwis j = some iwj := by
  rw [Graph.loseIwi]
  split
  · exact update_none.mpr ⟨hne, hj⟩
  · exact update_some.mpr (.inr ⟨hne, hj⟩)

theorem Ports.value_loseIwi (h : Ports register busy g) (hzero : g.fdToValue 0 = none)
    (hi : g.iwis i = some iwi) (hvalue : 0 < iwi.wiFd → g.fdToValue iwi.wiFd = some (.iwi i))
    {fd : Nat} {v : Value} :
    (g.loseIwi (some (i, iwi))).fdToValue fd = some v ↔ v ≠ .iwi i ∧ g.fdToValue fd = some v := by
  have hown : g.fdToValue fd = some (.iwi i) → fd = iwi.wiFd := fun hfd => by
    obtain ⟨iwi', _, hi', hfd', -⟩ := h.ofIwi hfd
    rw [hi] at hi'
    cases hi'
    exact hfd'.symm
  rw [Graph.loseIwi]
  split
  · next hpos =>
    refine update_none.trans (and_congr_left fun hv => not_congr ⟨?_, ?_⟩)
    · rintro rfl
      rw [hvalue hpos] at hv
      cases hv
      rfl
    · rintro rfl
      exact hown hv
  · next hpos =>
    refine ⟨fun hv => ⟨?_, hv⟩, And.right⟩
    rintro rfl
    have hfd : fd = 0 := (hown hv).trans (Nat.eq_zero_of_not_pos hpos)
    rw [hfd] at hv
    exact absurd (hzero.symm.trans hv) nofun

theorem loseIwi_same (g : Graph) (o : Option (Ptr × Iwi)) :
    (g.loseIwi o).iports = g.iports ∧ (g.loseIwi o).deviceIdToIport = g.deviceIdToIport ∧
      (g.loseIwi o).fresh = g.fresh := by
  cases o with
  | none => exact ⟨rfl, rfl, rfl⟩
  | some o =>
    rw [Graph.loseIwi]
    split
    · exact ⟨rfl, rfl, rfl⟩
    · exact ⟨rfl, rfl, rfl⟩

theorem Ports.loseIwi (h : Ports register busy g) (hbusy : busy p) (hzero : g.fdToValue 0 = none)
    (hp : g.iports p = some iport) {o : Option (Ptr × Iwi)} (hl : Linked g iport o) :
    Ports register busy ((g.loseIwi o).setIport p { iport with iwi := none }) := by
  cases o with
  | none =>
    have hnone : iport.iwi = none := hl.ptr.symm
    have hsame : { iport with iwi := none } = iport := by rw [← hnone]
    rw [hsame, Graph.loseIwi, setIport_self hp]
    exact h
  | some o =>
    obtain ⟨i, iwi⟩ := o
    have hlink : iport.iwi = some i := hl.ptr.symm
    have hi : g.iwis i = some iwi := hl.iwi i iwi rfl
    obtain ⟨iwi', hi', hport, hvalue, -⟩ := h.portIwi hp hlink
    obtain rfl := some.inj (hi.symm.trans hi')
    have hfds : ∀ {fd v}, (g.loseIwi (some (i, iwi))).fdToValue fd = some v ↔
        v ≠ .iwi i ∧ g.fdToValue fd = some v := h.value_loseIwi hzero hi hvalue
    obtain ⟨hiports, htable, hfresh⟩ := loseIwi_same g (some (i, iwi))
    generalize hg' : g.loseIwi (some (i, iwi)) = g' at hfds hiports htable hfresh
    have hiwis : ∀ {j iwj}, g'.iwis j = some iwj →
        j ≠ i ∧ g.iwis j = some iwj ∨ j = i ∧ iwj = { iwi with iport := none } := fun hj =>
      iwis_loseIwi (hg' ▸ hj)
    have hother : ∀ {j iwj}, j ≠ i → g.iwis j = some iwj → g'.iwis j = some iwj := fun hne hj =>
      hg' ▸ iwis_loseIwi_of_ne hne hj
    have hold : ∀ {p' iport'},
        (g'.setIport p { iport with iwi := none }).iports p' = some iport' →
          p' = p ∧ { iport with iwi := none } = iport' ∨ p' ≠ p ∧ g.iports p' = some iport' :=
      fun hp' => hiports ▸ update_some.mp hp'
    have hnew : ∀ {p' iport'}, g.iports p' = some iport' → ∃ iport'',
        (g'.setIport p { iport with iwi := none }).iports p' = some iport'' ∧
          iport''.sFd = iport'.sFd ∧ iport''.deviceId = iport'.deviceId ∧
          (p' ≠ p → iport'' = iport') := by
      intro p' iport' hp'
      by_cases heq : p' = p
      · subst heq
        obtain rfl := some.inj (hp.symm.trans hp')
        exact ⟨_, update_self _ _ _, rfl, rfl, fun hne => absurd rfl hne⟩
      · exact ⟨iport', update_some.mpr (.inr ⟨heq, hiports ▸ hp'⟩), rfl, rfl, fun _ => rfl⟩
    refine ⟨fun hv => ?_, fun hv => ?_, fun hp' hpos => ?_, fun hp' hj => ?_, fun hj hport' => ?_,
      fun hk => ?_, fun hp' => ?_, fun hp' hpos hd => ?_, fun hp' hzero' => ?_, fun hp' => ?_,
      fun hj => ?_⟩
    · obtain ⟨iport', hp', hfd⟩ := h.ofPort (hfds.mp hv).2
      obtain ⟨iport'', hp'', hfd'', -⟩ := hnew hp'
      exact ⟨iport'', hp'', hfd''.trans hfd⟩
    · obtain ⟨hne, hv⟩ := hfds.mp hv
      obtain ⟨iwj, p', hj, hfd, hport'⟩ := h.ofIwi hv
      exact ⟨iwj, p', hother (fun heq => hne (congrArg Value.iwi heq)) hj, hfd, hport'⟩
    · rcases hold hp' with ⟨rfl, rfl⟩ | ⟨-, hp'⟩
      · exact .inr hbusy
      · exact (h.portFd hp' hpos).imp_left fun hv => hfds.mpr ⟨nofun, hv⟩
    · rcases hold hp' with ⟨rfl, rfl⟩ | ⟨hne, hp'⟩
      · cases hj
      · obtain ⟨iwj, hj', hport', hvalue', hpos⟩ := h.portIwi hp' hj
        have hji : ∀ {j}, g.iwis j = some iwj → j ≠ i := by
          rintro j hj rfl
          obtain rfl := some.inj (hi.symm.trans hj)
          rw [hport] at hport'
          cases hport'
          exact hne rfl
        refine ⟨iwj, hother (hji hj') hj', hport', fun hpos => hfds.mpr ⟨?_, hvalue' hpos⟩, hpos⟩
        exact fun heq => hji hj' (Value.iwi.inj heq)
    · rcases hiwis hj with ⟨hne, hj⟩ | ⟨rfl, rfl⟩
      · obtain ⟨iport', hp', hlink'⟩ := h.iwiPort hj hport'
        obtain ⟨iport'', hp'', -, -, hsame⟩ := hnew hp'
        refine ⟨iport'', hp'', ?_⟩
        rw [hsame]
        · exact hlink'
        · rintro rfl
          obtain rfl := some.inj (hp.symm.trans hp')
          rw [hlink] at hlink'
          cases hlink'
          exact hne rfl
      · cases hport'
    · obtain ⟨iport', hp', hd⟩ := h.table (htable ▸ hk)
      obtain ⟨iport'', hp'', -, hd'', -⟩ := hnew hp'
      exact ⟨iport'', hp'', hd''.trans hd⟩
    · show g'.deviceIdToIport.lookup _ = _
      rw [htable]
      rcases hold hp' with ⟨rfl, rfl⟩ | ⟨-, hp'⟩
      · show g.deviceIdToIport.lookup iport.deviceId = _
        exact h.inTable hp
      · exact h.inTable hp'
    · rcases hold hp' with ⟨rfl, rfl⟩ | ⟨-, hp'⟩
      · exact .inr hbusy
      · exact h.opened hp' hpos hd
    · rcases hold hp' with ⟨rfl, rfl⟩ | ⟨-, hp'⟩
      · exact ⟨rfl, (h.shut hp hzero').2⟩
      · exact h.shut hp' hzero'
    · show _ < g'.fresh
      rw [hfresh]
      rcases hold hp' with ⟨rfl, rfl⟩ | ⟨-, hp'⟩
      · exact h.freshPort hp
      · exact h.freshPort hp'
    · show _ < g'.fresh
      rw [hfresh]
      rcases hiwis hj with ⟨-, hj⟩ | ⟨rfl, rfl⟩
      · exact h.freshIwi hj
      · exact h.freshIwi hi

theorem Ports.shutPort (h : Ports register (· = p) g) (hp : g.iports p = some iport)
    (hnone : iport.iwi = none) (hvalue : ∀ fd, g.fdToValue fd ≠ some (.iport p)) :
    Ports register noPort (g.shutPort p iport) := by
  have hsame : (g.shutPort p iport).iwis = g.iwis ∧ (g.shutPort p iport).fdToValue = g.fdToValue ∧
      (g.shutPort p iport).fresh = g.fresh := by
    rw [Graph.shutPort]
    split
    · exact ⟨rfl, rfl, rfl⟩
    · exact ⟨rfl, rfl, rfl⟩
  have hold : ∀ {p' iport'}, (g.shutPort p iport).iports p' = some iport' →
      p' = p ∧ { iport with sFd := 0, wsIdToIws := ∅, iwi := none } = iport' ∧
        (g.shutPort p iport).deviceIdToIport = g.deviceIdToIport ∨
      p' ≠ p ∧ g.iports p' = some iport' := by
    intro p' iport' hp'
    rw [Graph.shutPort] at hp' ⊢
    split at hp'
    · rw [if_pos ‹_›]
      exact (update_some.mp hp').imp_left fun h => ⟨h.1, h.2, rfl⟩
    · exact .inr (update_none.mp hp')
  have hnew : ∀ {p' iport'}, p' ≠ p → g.iports p' = some iport' →
      (g.shutPort p iport).iports p' = some iport' := by
    intro p' iport' hne hp'
    rw [Graph.shutPort]
    split
    · exact update_some.mpr (.inr ⟨hne, hp'⟩)
    · exact update_none.mpr ⟨hne, hp'⟩
  have hkept : ∀ {p' iport'}, p' ≠ p → g.iports p' = some iport' →
      (g.shutPort p iport).deviceIdToIport.lookup iport'.deviceId = some p' := by
    intro p' iport' hne hp'
    have hin := h.inTable hp'
    rw [Graph.shutPort]
    split
    · exact hin
    · refine (AList.lookup_erase_ne fun heq => ?_).trans hin
      rw [heq, h.inTable hp] at hin
      cases hin
      exact hne rfl
  have htable : ∀ {k p'}, (g.shutPort p iport).deviceIdToIport.lookup k = some p' →
      p' = p ∧ (g.shutPort p iport).iports p =
        some { iport with sFd := 0, wsIdToIws := ∅, iwi := none } ∧ iport.deviceId = k ∨
      p' ≠ p ∧ g.deviceIdToIport.lookup k = some p' := by
    intro k p' hk
    by_cases heq : p' = p
    · subst heq
      refine .inl ⟨rfl, ?_⟩
      rw [Graph.shutPort] at hk ⊢
      split at hk
      · rw [if_pos ‹_›]
        obtain ⟨iport', hp', hd⟩ := h.table hk
        obtain rfl := some.inj (hp.symm.trans hp')
        exact ⟨update_self _ _ _, hd⟩
      · by_cases hkey : k = iport.deviceId
        · subst hkey
          rw [AList.lookup_erase] at hk
          cases hk
        · rw [AList.lookup_erase_ne hkey] at hk
          obtain ⟨iport', hp', hd⟩ := h.table hk
          obtain rfl := some.inj (hp.symm.trans hp')
          exact absurd hd.symm hkey
    · refine .inr ⟨heq, ?_⟩
      rw [Graph.shutPort] at hk
      split at hk
      · exact hk
      · by_cases hkey : k = iport.deviceId
        · subst hkey
          rw [AList.lookup_erase] at hk
          cases hk
        · rwa [AList.lookup_erase_ne hkey] at hk
  obtain ⟨hiwis, hfds, hfresh⟩ := hsame
  generalize g.shutPort p iport = g' at hold hnew hkept htable hiwis hfds hfresh
  refine ⟨fun hv => ?_, fun hv => ?_, fun hp' hpos => ?_, fun hp' hj => ?_, fun hj hport' => ?_,
    fun hk => ?_, fun hp' => ?_, fun hp' hpos hd => ?_, fun hp' hzero' => ?_, fun hp' => ?_,
    fun hj => ?_⟩
  · rw [hfds] at hv
    obtain ⟨iport', hp', hfd⟩ := h.ofPort hv
    refine ⟨iport', hnew ?_ hp', hfd⟩
    rintro rfl
    exact hvalue _ hv
  · rw [hfds] at hv
    rw [hiwis]
    exact h.ofIwi hv
  · rcases hold hp' with ⟨-, rfl, -⟩ | ⟨hne, hp'⟩
    · exact absurd hpos (Nat.lt_irrefl 0)
    · rw [hfds]
      exact .inl ((h.portFd hp' hpos).resolve_right hne)
  · rcases hold hp' with ⟨-, rfl, -⟩ | ⟨hne, hp'⟩
    · cases hj
    · rw [hfds, hiwis]
      obtain ⟨iwj, hj, hport', hvalue', hpos⟩ := h.portIwi hp' hj
      exact ⟨iwj, hj, hport', hvalue', .inl (hpos.resolve_right hne)⟩
  · rw [hiwis] at hj
    obtain ⟨iport', hp', hlink⟩ := h.iwiPort hj hport'
    refine ⟨iport', hnew ?_ hp', hlink⟩
    rintro rfl
    obtain rfl := some.inj (hp.symm.trans hp')
    rw [hnone] at hlink
    cases hlink
  · rcases htable hk with ⟨rfl, hp', hd⟩ | ⟨hne, hk⟩
    · exact ⟨_, hp', hd⟩
    · obtain ⟨iport', hp', hd⟩ := h.table hk
      exact ⟨iport', hnew hne hp', hd⟩
  · rcases hold hp' with ⟨rfl, rfl, hsame⟩ | ⟨hne, hp'⟩
    · rw [hsame]
      show g.deviceIdToIport.lookup iport.deviceId = _
      exact h.inTable hp
    · exact hkept hne hp'
  · rcases hold hp' with ⟨-, rfl, -⟩ | ⟨hne, hp'⟩
    · exact absurd hpos (Nat.lt_irrefl 0)
    · exact .inl ((h.opened hp' hpos hd).resolve_right hne)
  · rcases hold hp' with ⟨-, rfl, -⟩ | ⟨-, hp'⟩
    · exact ⟨rfl, rfl⟩
    · exact h.shut hp' hzero'
  · rw [hfresh]
    rcases hold hp' with ⟨rfl, -, -⟩ | ⟨-, hp'⟩
    · exact h.freshPort hp
    · exact h.freshPort hp'
  · rw [hiwis] at hj
    rw [hfresh]
    exact h.freshIwi hj

end Ports

/-! ## Whatever goes -/

/-- The descriptors, and the links of ports and inspectors. -/
structure Wired (register : Register) (w : World) : Prop where
  sockets : Sockets w.graph
  ports : Ports register noPort w.graph

section Wired

variable {register : Register} {env : Outside} {g g' : Graph} {w : World} {p i : Ptr}
  {iport : Iport} {iwi : Iwi} {levels : Nat}

theorem Wired.trimmed {w' : World} (h : Wired register w) (ht : Trimmed w.graph w') :
    Wired register w' := ⟨ht.sockets, h.ports.kin ht.fewer.kin⟩

theorem Wired.alike {w' : World} (h : Wired register w) (ha : Alike w.graph w'.graph) :
    Wired register w' := ⟨h.sockets.alike ha, h.ports.kin ha.kin⟩

theorem Sockets.zero_none (h : Sockets g) : g.fdToValue 0 = none := by
  cases hv : g.fdToValue 0 with
  | none => rfl
  | some v => exact absurd (h.registered hv) h.zero

theorem Sockets.clearDevice (h : Sockets g) {fd : Nat} {v : Value} (hfd : g.fdToValue fd = some v)
    (hv : v.OfDevice) (hshrunk : Shrunk (g.takeValue fd) g') (h' : Sockets g') :
    Sockets (g'.clearFd fd) := by
  refine h'.clearFd ?_ ?_ ?_
  · cases hvalue : g'.fdToValue fd with
    | none => rfl
    | some v' => exact absurd rfl (update_none.mp (hshrunk.value hvalue)).1
  · rintro s iws hs rfl
    obtain ⟨iws0, hs0, heq⟩ := hshrunk.iws hs
    rw [heq] at hfd
    rw [(h.ws hs0).2 v hfd] at hv
    exact hv
  · rintro f ifs hf rfl
    obtain ⟨ifs0, hf0, heq⟩ := hshrunk.ifs hf
    rw [heq] at hfd
    rw [(h.fs hf0).2 v hfd] at hv
    exact hv

theorem shrunk_loseIwi (g : Graph) (o : Option (Ptr × Iwi)) : Shrunk g (g.loseIwi o) := by
  have hrefl : Shrunk g g := (Alike.refl g).fewer.toShrunk
  cases o with
  | none => exact hrefl
  | some o =>
    rw [Graph.loseIwi]
    split
    · exact ⟨hrefl.iws, hrefl.ifs, fun hv => (update_none.mp hv).2⟩
    · exact ⟨hrefl.iws, hrefl.ifs, hrefl.value⟩

theorem shrunk_shutPort (g : Graph) : Shrunk g (g.shutPort p iport) := by
  have hrefl : Shrunk g g := (Alike.refl g).fewer.toShrunk
  rw [Graph.shutPort]
  split
  · exact ⟨hrefl.iws, hrefl.ifs, hrefl.value⟩
  · exact ⟨hrefl.iws, hrefl.ifs, hrefl.value⟩

theorem Sockets.loseIwi (h : Sockets g) {o : Option (Ptr × Iwi)}
    (hvalue : ∀ i iwi, o = some (i, iwi) → 0 < iwi.wiFd → g.fdToValue iwi.wiFd = some (.iwi i)) :
    Sockets (g.loseIwi o) := by
  cases o with
  | none => exact h
  | some o =>
    obtain ⟨i, iwi⟩ := o
    rw [Graph.loseIwi]
    split
    · next hpos =>
      have hdrop := h.clearDevice (hvalue i iwi rfl hpos) trivial
        (Alike.refl _).fewer.toShrunk (h.takeValue _)
      exact ⟨hdrop.zero, hdrop.registered, hdrop.ws, hdrop.fs⟩
    · exact ⟨h.zero, h.registered, h.ws, h.fs⟩

theorem Sockets.shutPort (h : Sockets g) : Sockets (g.shutPort p iport) := by
  rw [Graph.shutPort]
  split
  · exact h.setIport _ _
  · exact ⟨h.zero, h.registered, h.ws, h.fs⟩

theorem Ports.removable {busy : Ptr → Prop} {E : Fault → Prop} (h : Ports register busy g)
    (hp : g.iports p = some iport) (hE : E .ipageFreed) : Removable E g iport := by
  intro i hlink
  obtain ⟨iwi, hi, -, hvalue, -⟩ := h.portIwi hp hlink
  exact ⟨iwi, hi, hvalue, .inr hE⟩

theorem shutPort_unlinked (g : Graph) :
    (g.setIport p { iport with iwi := none }).shutPort p { iport with iwi := none } =
      g.shutPort p iport := by
  rw [Graph.shutPort, Graph.shutPort]
  split
  · simp only [Graph.setIport, update_idem]
  · simp only [Graph.setIport, Graph.freeIport, update_idem]

theorem wired_closePort (hsockets : Sockets w.graph) (hports : Ports register (· = p) w.graph)
    (hvalue : ∀ fd, w.graph.fdToValue fd ≠ some (.iport p)) :
    Meets (iwdpIportClose (removeFdAt env levels) p) w
      (fun _ w' => Wired register w' ∧ Shrunk w.graph w'.graph) AnyFault := by
  cases hp : w.graph.iports p with
  | none =>
    rw [iwdpIportClose, meets_bind, meets_getIport, hp]
    exact ⟨nofun, fun _ => trivial⟩
  | some iport =>
    refine (meets_iwdpIportClose hsockets hp (hports.inTable hp) (hports.removable hp trivial)
      (.inr fun _ => trivial) (.inr trivial)).post fun _ w' h => ?_
    obtain ⟨w1, iport1, o, ipages, ht, -, hp1, hl, hw'⟩ := h
    have hports1 := hports.kin ht.fewer.kin
    have hshrunk : Shrunk w.graph (w1.graph.loseIwi o) :=
      ht.fewer.toShrunk.trans (shrunk_loseIwi _ o)
    have hlost := hports1.loseIwi rfl ht.sockets.zero_none hp1 hl
    have hshut := hlost.shutPort (update_self _ _ _) rfl fun fd hfd =>
      hvalue fd (hshrunk.value hfd)
    rw [shutPort_unlinked] at hshut
    have hlose : Sockets (w1.graph.loseIwi o) := by
      refine ht.sockets.loseIwi fun i iwi ho hpos => ?_
      subst ho
      obtain ⟨iwi', hi', -, hvalue', -⟩ := hports1.portIwi hp1 hl.ptr.symm
      obtain rfl := some.inj ((hl.iwi i iwi rfl).symm.trans hi')
      exact hvalue' hpos
    refine ⟨⟨?_, ?_⟩, ?_⟩
    · rw [hw']
      exact Sockets.alike hlose.shutPort (.ipages _)
    · rw [hw']
      exact hshut.kin (Alike.ipages _).kin
    · rw [hw']
      exact (hshrunk.trans (shrunk_shutPort _)).trans (Alike.ipages _).fewer.toShrunk

theorem Wired.clearDevice {w0 : World} (h0 : Sockets w0.graph) {fd : Nat} {v : Value}
    (hfd : w0.graph.fdToValue fd = some v) (hv : v.OfDevice)
    (hshrunk : Shrunk (w0.graph.takeValue fd) w.graph) (h : Wired register w) :
    Wired register { w with graph := w.graph.clearFd fd } ∧ Shrunk w0.graph (w.graph.clearFd fd) :=
  ⟨⟨h0.clearDevice hfd hv hshrunk h.sockets, h.ports.kin (Fewer.clearFd _ fd).kin⟩,
    ⟨hshrunk.iws, hshrunk.ifs, fun hv => (update_none.mp (hshrunk.value hv)).2⟩⟩

theorem wired_removePort (hsockets : Sockets w.graph) (hports : Ports register (· = p) w.graph)
    {fd : Nat} (hfd : w.graph.fdToValue fd = some (.iport p)) :
    Meets (removeFdAt env levels fd) w
      (fun _ w' => Wired register w' ∧ Shrunk w.graph w'.graph) AnyFault := by
  cases levels with
  | zero => trivial
  | succ levels =>
    rw [removeFdAt, meets_bind, meets_get, if_pos (hsockets.registered hfd), hfd]
    rw [meets_bind, meets_link, meets_bind]
    have htaken := hports.takeValue hfd
    refine (wired_closePort (hsockets.takeValue fd) htaken fun fd' hfd' => ?_).post
      fun _ w' hw => Wired.clearDevice hsockets hfd trivial hw.2 hw.1
    obtain ⟨hne, hfd'⟩ := update_none.mp hfd'
    obtain ⟨iport, hp, hsFd⟩ := hports.ofPort hfd
    obtain ⟨iport', hp', hsFd'⟩ := hports.ofPort hfd'
    obtain rfl := some.inj (hp.symm.trans hp')
    exact hne (hsFd'.symm.trans hsFd)

theorem wired_removeOwner {w0 : World} (h : Wired register w0) {fd : Nat}
    (hfd : w0.graph.fdToValue fd = some (.iwi i)) (hi : w0.graph.iwis i = some iwi)
    (hwiFd : iwi.wiFd = fd) (hp : w0.graph.iports p = some iport) (hlink : iport.iwi = some i)
    (hopen : 0 < iport.sFd) {ipages : Ptr → Option Ipage}
    (hw : w.graph = { (((w0.graph.takeValue fd).setIport p
      { iport with iwi := none }).freeIwi i) with ipages := ipages }) :
    Meets (removeFdAt env levels iport.sFd) w
      (fun _ w' => Wired register { w' with graph := w'.graph.clearFd fd }) AnyFault := by
  have hpos : 0 < iwi.wiFd := by
    refine Nat.pos_of_ne_zero fun hzero => h.sockets.zero ?_
    rw [← hzero, hwiFd]
    exact h.sockets.registered hfd
  have hlinked : Linked w0.graph iport (some (i, iwi)) := by
    refine ⟨hlink.symm, ?_⟩
    rintro _ _ ⟨⟩
    exact hi
  have hbusy : Ports register (· = p) w0.graph := h.ports.mono fun _ _ _ => id
  have hlost := hbusy.loseIwi rfl h.sockets.zero_none hp hlinked
  rw [Graph.loseIwi, if_pos hpos, hwiFd] at hlost
  have hports : Ports register (· = p) w.graph := by
    rw [hw]
    exact hlost.kin ⟨(Kin.refl _).iport, (Kin.refl _).clients, fun _ => rfl, fun _ => Iff.rfl, rfl,
      Nat.le_refl _⟩
  have hsockets : Sockets w.graph := by
    have htaken := h.sockets.takeValue fd
    rw [hw]
    exact ⟨htaken.zero, htaken.registered, htaken.ws, htaken.fs⟩
  have hvalue : w.graph.fdToValue iport.sFd = some (.iport p) := by
    have hvalue := (h.ports.portFd hp hopen).resolve_right id
    rw [hw]
    refine update_none.mpr ⟨?_, hvalue⟩
    rintro rfl
    rw [hvalue] at hfd
    cases hfd
  refine (wired_removePort hsockets hports hvalue).post fun _ w' ⟨h', hshrunk⟩ => ?_
  have htaken : Shrunk (w0.graph.takeValue fd) w.graph := by
    have hrefl := (Alike.refl (w0.graph.takeValue fd)).fewer.toShrunk
    rw [hw]
    exact ⟨hrefl.iws, hrefl.ifs, hrefl.value⟩
  exact (Wired.clearDevice h.sockets hfd trivial (htaken.trans hshrunk) h').1

theorem wired_removeIwi (h : Wired register w) {fd : Nat}
    (hfd : w.graph.fdToValue fd = some (.iwi i)) :
    Meets (removeFdAt env levels fd) w (fun _ => Wired register) AnyFault := by
  cases levels with
  | zero => trivial
  | succ levels =>
    obtain ⟨iwi, p, hi, hwiFd, hport⟩ := h.ports.ofIwi hfd
    obtain ⟨iport, hp, hlink⟩ := h.ports.iwiPort hi hport
    have hopen : 0 < iport.sFd := by
      refine Nat.pos_of_ne_zero fun hzero => ?_
      rw [(h.ports.shut hp hzero).1] at hlink
      cases hlink
    rw [removeFdAt, meets_bind, meets_get, if_pos (h.sockets.registered hfd), hfd]
    rw [meets_bind, meets_link, iwdpOnClose, iwdpIwiClose, meets_bind, meets_bind, meets_getIwi]
    refine ⟨fun iwi' hi' => ?_, fun _ => trivial⟩
    obtain rfl := some.inj (hi.symm.trans hi')
    rw [hport, forgetIwi, meets_bind, meets_bind, meets_getIport]
    refine ⟨fun iport' hp' => ?_, fun _ => trivial⟩
    obtain rfl := some.inj (hp.symm.trans hp')
    rw [meets_link, meets_bind, meets_link]
    refine Meets.bind (meets_freePages (.inr trivial)) fun _ w1 hw1 => ?_
    obtain ⟨ipages, rfl⟩ := hw1
    rw [meets_bind, meets_link, closePort, meets_bind, meets_bind, meets_getIport]
    refine ⟨fun iport' hp' => ?_, fun _ => trivial⟩
    obtain rfl := some.inj ((update_self p _ _).symm.trans hp')
    rw [removeIfOpen, if_pos hopen, meets_bind]
    refine (@wired_removeOwner _ _ _ _ _ _ _ levels _ h _ hfd hi hwiFd hp hlink hopen
      ipages ?_).post fun _ _ h' => h'
    simp only [Graph.setIwi, Graph.freeIwi, update_idem]

/-- **Whatever is removed, the links stay whole.** -/
theorem wired_removeFdAt (levels fd : Nat) :
    Preserves (Wired register) AnyFault (removeFdAt env levels fd) := by
  intro w h
  by_cases hv : ∀ v, w.graph.fdToValue fd = some v → ¬ v.OfDevice
  · exact (removesClients levels fd w h.sockets hv).post fun _ _ ht => h.trimmed ht
  push Not at hv
  obtain ⟨v, hfd, hv⟩ := hv
  cases v with
  | iport p =>
    exact (wired_removePort h.sockets (h.ports.mono fun _ _ _ => id) hfd).post fun _ _ h' => h'.1
  | iwi i => exact wired_removeIwi h hfd
  | idl => exact hv.elim
  | iws s => exact hv.elim
  | ifs f => exact hv.elim

theorem wired_smRemoveFd (fd : Nat) : Preserves (Wired register) AnyFault (smRemoveFd env fd) :=
  wired_removeFdAt 4 fd

/-! ### Browsers -/

theorem Wired.same {w' : World} (h : Wired register w) (hg : w'.graph = w.graph) :
    Wired register w' := h.alike (by rw [hg]; exact .refl _)

theorem wired_of_quiet {α : Type} {m : Handler α} (hm : ∀ w0, Preserves (Quiet w0) AnyFault m) :
    Preserves (Wired register) AnyFault m :=
  fun w h => (hm w w (Quiet.refl w)).post fun _ _ hq => h.same hq.graph

theorem wired_of_alike {α : Type} {m : Handler α} (hm : ∀ g, Preserves (LikeGraph g) AnyFault m) :
    Preserves (Wired register) AnyFault m :=
  fun w h => (hm w.graph w (Alike.refl _)).post fun _ _ ha => h.alike ha

theorem wired_follow {α : Type} {heap : Graph → Ptr → Option α} {gone : Fault} {p : Ptr} :
    Preserves (Wired register) AnyFault (follow heap gone p) :=
  fun _ h => meets_follow.mpr ⟨fun _ _ => h, fun _ => trivial⟩

theorem wired_notNull {α : Type} {o : Option α} : Preserves (Wired register) AnyFault (notNull o) :=
  fun _ h => meets_notNull.mpr ⟨fun _ _ => h, fun _ => trivial⟩

theorem Sockets.addFd {fd : Nat} {v : Value} (hpos : 0 < fd) (h : Sockets g) (hnot : fd ∉ g.allFds)
    (hiports : g'.allFds = g.allFds) (hvalue : g'.fdToValue = g.fdToValue)
    (hws : ∀ s iws', g'.iwss s = some iws' →
      (∃ iws, g.iwss s = some iws ∧ iws'.wsFd = iws.wsFd) ∨ iws'.wsFd = fd ∧ v = .iws s)
    (hfs : ∀ f ifs', g'.ifss f = some ifs' →
      (∃ ifs, g.ifss f = some ifs ∧ ifs'.fsFd = ifs.fsFd) ∨ ifs'.fsFd = fd ∧ v = .ifs f) :
    Sockets (g'.addFd fd v) := by
  have hkept : ∀ {x : Nat} {v' : Value}, x ∈ g.allFds → (∀ v, g.fdToValue x = some v → v = v') →
      x ∈ (g'.addFd fd v).allFds ∧ ∀ v1, (g'.addFd fd v).fdToValue x = some v1 → v1 = v' := by
    intro x v' hx hv'
    refine ⟨Finset.mem_insert_of_mem (hiports ▸ hx), fun v1 hv1 => ?_⟩
    rcases update_some.mp hv1 with ⟨rfl, -⟩ | ⟨-, hv1⟩
    · exact absurd hx hnot
    · exact hv' v1 (hvalue ▸ hv1)
  have hnew : ∀ v1, (g'.addFd fd v).fdToValue fd = some v1 → v1 = v := by
    intro v1 hv1
    rcases update_some.mp hv1 with ⟨-, rfl⟩ | ⟨hne, -⟩
    · rfl
    · exact absurd rfl hne
  refine ⟨fun hmem => ?_, fun {x v1} hv1 => ?_, fun {s iws'} hs => ?_, fun {f ifs'} hf => ?_⟩
  · rcases Finset.mem_insert.mp hmem with heq | hmem
    · exact absurd heq.symm (Nat.ne_of_gt hpos)
    · exact h.zero (hiports ▸ hmem)
  · rcases update_some.mp hv1 with ⟨rfl, -⟩ | ⟨-, hv1⟩
    · exact Finset.mem_insert_self _ _
    · exact Finset.mem_insert_of_mem (hiports ▸ h.registered (hvalue ▸ hv1))
  · rcases hws s iws' hs with ⟨iws, hs, hfd⟩ | ⟨rfl, rfl⟩
    · rw [hfd]
      exact hkept (h.ws hs).1 (h.ws hs).2
    · exact ⟨Finset.mem_insert_self _ _, hnew⟩
  · rcases hfs f ifs' hf with ⟨ifs, hf, hfd⟩ | ⟨rfl, rfl⟩
    · rw [hfd]
      exact hkept (h.fs hf).1 (h.fs hf).2
    · exact ⟨Finset.mem_insert_self _ _, hnew⟩

theorem Kin.addFd {fd : Nat} {v : Value} (hk : Kin g g') (h : Sockets g) (hnot : fd ∉ g.allFds)
    (hvalue : g'.fdToValue = g.fdToValue) (hv : ¬ v.OfDevice) : Kin g (g'.addFd fd v) := by
  refine ⟨hk.iport, hk.clients, hk.iwi, fun {x v'} hv' => ?_, hk.table, hk.fresh⟩
  refine update_some.trans ⟨?_, fun hx => .inr ⟨?_, hvalue ▸ hx⟩⟩
  · rintro (⟨-, rfl⟩ | ⟨-, hx⟩)
    · exact absurd hv' hv
    · exact hvalue ▸ hx
  · rintro rfl
    exact hnot (h.registered hx)

theorem meets_smAddFd_new {fd : Nat} {v : Value} {Q : Bool → World → Prop} {E : Fault → Prop}
    (h : Sockets g) (hnot : fd ∉ g.allFds) (hallFds : w.graph.allFds = g.allFds)
    (hvalue : w.graph.fdToValue = g.fdToValue)
    (hQ : Q true { w with graph := w.graph.addFd fd v }) : Meets (smAddFd fd v) w Q E := by
  rw [meets_smAddFd, hallFds, hvalue]
  refine ⟨fun hmem => absurd hmem hnot, fun _ hsome => ?_, fun _ _ => hQ⟩
  obtain ⟨v', hv'⟩ := isSome_iff_exists.mp hsome
  exact absurd (h.registered hv') hnot

theorem wired_iwdpSendHttp {s : Ptr} (isHead : Bool) (status resource : String) (content : Str) :
    Preserves (Wired register) AnyFault (iwdpSendHttp env s isHead status resource content) :=
  wired_of_quiet fun _ => quiet_iwdpSendHttp env (fun _ => trivial) (Sound.all _) _ _ _ _

theorem wired_iwdpOnStaticRequestForHttp {s : Ptr} (isHead : Bool) (resource feUrl : Str) :
    Preserves (Wired register) AnyFault
      (iwdpOnStaticRequestForHttp env s isHead resource feUrl) := by
  refine wired_follow.bind fun iws => wired_follow.bind fun _ => ?_
  dsimp only
  split
  · exact (wired_iwdpSendHttp _ _ _ _).bind fun _ => preserves_pure _
  split
  · exact (wired_iwdpSendHttp _ _ _ _).bind fun _ => preserves_pure _
  refine Preserves.bind (wired_of_quiet fun _ => quiet_ask) fun n => ?_
  split
  · exact (wired_iwdpSendHttp _ _ _ _).bind fun _ => preserves_pure _
  intro w h
  rw [meets_bind, meets_newFd, meets_bind, meets_malloc, meets_bind, meets_link, meets_bind,
    meets_getIws]
  refine ⟨fun iws hs => ?_, fun _ => trivial⟩
  rw [meets_bind, meets_link, meets_bind]
  have hnot := env.socket_unused w.tick w.graph.allFds
  refine meets_smAddFd_new h.sockets hnot rfl rfl ?_
  rw [if_pos rfl]
  refine Preserves.bind (wired_of_quiet fun _ => quiet_sendFd env _ _) (fun _ => preserves_pure _) _
    ⟨?_, h.ports.kin (Kin.addFd ?_ h.sockets hnot rfl id)⟩
  · refine h.sockets.addFd (env.socket_pos _ _) hnot rfl rfl (fun s' iws' hs' => .inl ?_)
      fun f ifs' hf => ?_
    · rcases update_some.mp hs' with ⟨rfl, rfl⟩ | ⟨-, hs'⟩
      · exact ⟨iws, hs, rfl⟩
      · exact ⟨iws', hs', rfl⟩
    · rcases update_some.mp hf with ⟨rfl, rfl⟩ | ⟨-, hf⟩
      · exact .inr ⟨rfl, rfl⟩
      · exact .inl ⟨ifs', hf, rfl⟩
  · exact ⟨(Kin.refl _).iport, (Kin.refl _).clients, fun _ => rfl, fun _ => Iff.rfl, rfl,
      Nat.le_succ _⟩

theorem wired_iwdpOnStaticRequest {s : Ptr} (isHead : Bool) (resource : Str) :
    Preserves (Wired register) AnyFault (iwdpOnStaticRequest env s isHead resource) := by
  have hfile : ∀ fePath, Preserves (Wired register) AnyFault
      (iwdpOnStaticRequestForFile env s isHead resource fePath) := fun _ =>
    wired_of_quiet fun _ =>
      quiet_iwdpOnStaticRequestForFile env (fun _ => trivial) (Sound.all _) _ _ _
  have hnone : ∀ details, Preserves (Wired register) AnyFault
      (iwdpOnNotFound env s isHead resource details) := fun _ =>
    wired_of_quiet fun _ => quiet_iwdpOnNotFound env (fun _ => trivial) (Sound.all _) _ _ _
  refine wired_follow.bind fun iws => wired_follow.bind fun _ => ?_
  split
  · exact (hnone _).bind fun _ => preserves_pure _
  split
  · exact (hfile _).bind fun _ => preserves_pure _
  split
  · exact (hfile _).bind fun _ => preserves_pure _
  split
  · exact wired_iwdpOnStaticRequestForHttp _ _ _
  · exact (hnone _).bind fun _ => preserves_pure _

theorem wired_turnRules (s : Ptr) : TurnRules env s (Wired register) (Wired register)
    (Wired register) AnyFault fun _ _ => True where
  quiet h hq := h.same hq.graph
  freeQuiet h hq := h.same hq.graph
  midQuiet h hq := h.same hq.graph
  free h _ := h
  again h := h.same rfl
  mid h := h
  late h _ := h
  sound _ := Sound.all _
  live _ _ := trivial
  devtools resource h := wired_of_alike (fun _ => alike_iwdpOnDevtoolsRequest resource) _ h
  static isHead _ _ h _ _ := wired_iwdpOnStaticRequest isHead _ _ h

theorem wired_wsOnRecv (s : Ptr) (buf : List UInt8) :
    Preserves (Wired register) AnyFault (wsOnRecv env s buf) := fun _ h =>
  (wired_turnRules s).wsOnRecv_inv buf h (TurnsMeet.of_forall (fun _ _ => trivial) _)

theorem wired_relay (f : Ptr) (buf : List UInt8) :
    Preserves (Wired register) AnyFault (relay env f buf) := by
  refine wired_follow.bind fun ifs => wired_notNull.bind fun s => wired_follow.bind fun iws => ?_
  refine Preserves.bind (wired_of_quiet fun _ => quiet_sendFd env _ _) fun ok => ?_
  split
  · exact preserves_pure _
  · exact (wired_smRemoveFd _).bind fun _ => preserves_pure _

theorem wired_orRemove (fd : Nat) (ok : Bool) :
    Preserves (Wired register) AnyFault (orRemove env fd ok) := by
  unfold orRemove
  split
  · exact preserves_pure _
  · exact (wired_smRemoveFd _).bind fun _ => preserves_pure _

theorem wired_smAccept (h : Wired register w) {sFd : Nat}
    (hfd : w.graph.fdToValue sFd = some (.iport p)) :
    Meets (smAccept env p) w (fun _ => Wired register) AnyFault := by
  obtain ⟨iport, hp, hsFd⟩ := h.ports.ofPort hfd
  have hopen : iport.sFd ≠ 0 := fun hzero => by
    rw [hsFd] at hzero
    rw [hzero, h.sockets.zero_none] at hfd
    cases hfd
  have hnot := env.socket_unused w.tick w.graph.allFds
  rw [smAccept, meets_bind, meets_newFd, iwdpIportAccept, meets_bind, meets_bind, meets_malloc,
    meets_bind, setWs, meets_modify, meets_bind, meets_ask, meets_bind, meets_link, meets_bind,
    meets_getIport]
  refine ⟨fun iport' hp' => ?_, fun _ => trivial⟩
  obtain rfl := some.inj (hp.symm.trans hp')
  rw [meets_bind, meets_link, meets_pure, meets_bind]
  refine meets_smAddFd_new h.sockets hnot rfl rfl ?_
  rw [if_pos rfl, meets_pure]
  refine ⟨?_, h.ports.kin (Kin.addFd ⟨?_, ?_, fun _ => rfl, fun _ => Iff.rfl, rfl, Nat.le_succ _⟩
    h.sockets hnot rfl id)⟩
  · refine h.sockets.addFd (env.socket_pos _ _) hnot rfl rfl (fun s' iws' hs' => ?_)
      fun f ifs' hf => .inl ⟨ifs', hf, rfl⟩
    rcases update_some.mp hs' with ⟨rfl, rfl⟩ | ⟨-, hs'⟩
    · exact .inr ⟨rfl, rfl⟩
    · exact .inl ⟨iws', hs', rfl⟩
  · exact map_update hp rfl
  · intro p' iport1 iport2 hp1 hp2 hzero hempty
    rcases update_some.mp hp2 with ⟨rfl, rfl⟩ | ⟨-, hp2⟩
    · obtain rfl := some.inj (hp.symm.trans hp1)
      exact absurd hzero hopen
    · obtain rfl := some.inj (hp1.symm.trans hp2)
      exact hempty

/-! ### Ports -/

/-- The port of a device that has none. -/
def Graph.newPort (g : Graph) (deviceId : Option Str) : Graph :=
  { Graph.setIport { g with fresh := g.fresh + 1 } g.fresh ⟨0, 0, false, ∅, deviceId, none⟩ with
    deviceIdToIport := g.deviceIdToIport.insert deviceId g.fresh }

/-- A port listens. -/
def Graph.openPort (g : Graph) (p : Ptr) (iport : Iport) (fd : Nat) (port : Int) : Graph :=
  (g.addFd fd (.iport p)).setIport p { iport with sFd := fd, port := port }

theorem Ports.newPort (h : Ports register noPort g) {deviceId : Option Str}
    (hnone : g.deviceIdToIport.lookup deviceId = none) :
    Ports register noPort (g.newPort deviceId) := by
  have hold : ∀ {p' iport'}, (g.newPort deviceId).iports p' = some iport' →
      p' = g.fresh ∧ iport' = ⟨0, 0, false, ∅, deviceId, none⟩ ∨ g.iports p' = some iport' :=
    fun hp' => (update_some.mp hp').imp (fun h => ⟨h.1, h.2.symm⟩) And.right
  have hnew : ∀ {p' iport'}, g.iports p' = some iport' →
      (g.newPort deviceId).iports p' = some iport' := fun hp' =>
    update_some.mpr (.inr ⟨Nat.ne_of_lt (h.freshPort hp'), hp'⟩)
  refine ⟨fun hv => ?_, h.ofIwi, fun hp' hpos => ?_, fun hp' hj => ?_, fun hj hport' => ?_,
    fun {k p'} hk => ?_, fun {p' iport'} hp' => ?_, fun hp' hpos hd => ?_, fun hp' hzero' => ?_,
    fun hp' => ?_, fun hj => Nat.lt_succ_of_lt (h.freshIwi hj)⟩
  · obtain ⟨iport', hp', hfd⟩ := h.ofPort hv
    exact ⟨iport', hnew hp', hfd⟩
  · rcases hold hp' with ⟨rfl, rfl⟩ | hp'
    · exact absurd hpos (Nat.lt_irrefl 0)
    · exact h.portFd hp' hpos
  · rcases hold hp' with ⟨rfl, rfl⟩ | hp'
    · cases hj
    · exact h.portIwi hp' hj
  · obtain ⟨iport', hp', hlink⟩ := h.iwiPort hj hport'
    exact ⟨iport', hnew hp', hlink⟩
  · by_cases hkey : k = deviceId
    · subst hkey
      have hk' : (g.deviceIdToIport.insert k g.fresh).lookup k = some p' := hk
      rw [AList.lookup_insert] at hk'
      cases hk'
      exact ⟨_, update_self _ _ _, rfl⟩
    · have hk' : (g.deviceIdToIport.insert deviceId g.fresh).lookup k = some p' := hk
      rw [AList.lookup_insert_ne hkey] at hk'
      obtain ⟨iport', hp', hd⟩ := h.table hk'
      exact ⟨iport', hnew hp', hd⟩
  · show (g.deviceIdToIport.insert deviceId g.fresh).lookup iport'.deviceId = some p'
    rcases hold hp' with ⟨rfl, rfl⟩ | hp'
    · exact AList.lookup_insert _
    · have hin := h.inTable hp'
      rw [AList.lookup_insert_ne]
      · exact hin
      · intro heq
        rw [heq, hnone] at hin
        cases hin
  · rcases hold hp' with ⟨rfl, rfl⟩ | hp'
    · exact absurd hpos (Nat.lt_irrefl 0)
    · exact h.opened hp' hpos hd
  · rcases hold hp' with ⟨rfl, rfl⟩ | hp'
    · exact ⟨rfl, rfl⟩
    · exact h.shut hp' hzero'
  · rcases hold hp' with ⟨rfl, -⟩ | hp'
    · exact Nat.lt_succ_self _
    · exact Nat.lt_succ_of_lt (h.freshPort hp')

theorem Ports.openPort (h : Ports register noPort g) (hs : Sockets g) (hp : g.iports p = some iport)
    (hzero : iport.sFd = 0) {fd : Nat} (hpos : 0 < fd) (hnot : fd ∉ g.allFds) (port : Int) :
    Ports register (· = p) (g.openPort p iport fd port) := by
  have hshut := (h.shut hp hzero).1
  have hold : ∀ {p' iport'}, (g.openPort p iport fd port).iports p' = some iport' →
      p' = p ∧ { iport with sFd := fd, port := port } = iport' ∨
        p' ≠ p ∧ g.iports p' = some iport' := update_some.mp
  have hnew : ∀ {p' iport'}, p' ≠ p → g.iports p' = some iport' →
      (g.openPort p iport fd port).iports p' = some iport' := fun hne hp' =>
    update_some.mpr (.inr ⟨hne, hp'⟩)
  have hvalue : ∀ {x v}, g.fdToValue x = some v →
      (g.openPort p iport fd port).fdToValue x = some v := by
    intro x v hx
    refine update_some.mpr (.inr ⟨?_, hx⟩)
    rintro rfl
    exact hnot (hs.registered hx)
  have hself : (g.openPort p iport fd port).fdToValue fd = some (.iport p) :=
    update_self _ _ _
  refine ⟨fun {x p'} hv => ?_, fun hv => ?_, fun hp' hpos' => ?_, fun hp' hj => ?_,
    fun hj hport' => ?_, fun {k p'} hk => ?_, fun hp' => ?_, fun hp' hpos' hd => ?_,
    fun hp' hzero' => ?_, fun hp' => ?_, h.freshIwi⟩
  · rcases update_some.mp hv with ⟨rfl, heq⟩ | ⟨-, hx⟩
    · cases heq
      exact ⟨_, update_self _ _ _, rfl⟩
    · obtain ⟨iport', hp', hfd⟩ := h.ofPort hx
      refine ⟨iport', hnew ?_ hp', hfd⟩
      rintro rfl
      obtain rfl := some.inj (hp.symm.trans hp')
      rw [← hfd, hzero, hs.zero_none] at hx
      cases hx
  · rcases update_some.mp hv with ⟨-, heq⟩ | ⟨-, hv⟩
    · cases heq
    · exact h.ofIwi hv
  · rcases hold hp' with ⟨rfl, rfl⟩ | ⟨-, hp'⟩
    · exact .inl hself
    · exact .inl (hvalue ((h.portFd hp' hpos').resolve_right id))
  · rcases hold hp' with ⟨rfl, rfl⟩ | ⟨-, hp'⟩
    · rw [hshut] at hj
      cases hj
    · obtain ⟨iwj, hj', hport', hvalue', hpos'⟩ := h.portIwi hp' hj
      exact ⟨iwj, hj', hport', fun hpos' => hvalue (hvalue' hpos'), .inl (hpos'.resolve_right id)⟩
  · obtain ⟨iport', hp', hlink⟩ := h.iwiPort hj hport'
    refine ⟨iport', hnew ?_ hp', hlink⟩
    rintro rfl
    obtain rfl := some.inj (hp.symm.trans hp')
    rw [hshut] at hlink
    cases hlink
  · obtain ⟨iport', hp', hd⟩ := h.table hk
    by_cases heq : p' = p
    · subst heq
      obtain rfl := some.inj (hp.symm.trans hp')
      exact ⟨_, update_self _ _ _, hd⟩
    · exact ⟨iport', hnew heq hp', hd⟩
  · rcases hold hp' with ⟨rfl, rfl⟩ | ⟨-, hp'⟩
    · show g.deviceIdToIport.lookup iport.deviceId = _
      exact h.inTable hp
    · exact h.inTable hp'
  · rcases hold hp' with ⟨rfl, rfl⟩ | ⟨-, hp'⟩
    · exact .inr rfl
    · exact .inl ((h.opened hp' hpos' hd).resolve_right id)
  · rcases hold hp' with ⟨rfl, rfl⟩ | ⟨-, hp'⟩
    · exact absurd hzero' (Nat.ne_of_gt hpos)
    · exact h.shut hp' hzero'
  · rcases hold hp' with ⟨rfl, -⟩ | ⟨-, hp'⟩
    · exact h.freshPort hp
    · exact h.freshPort hp'

theorem Sockets.openPort (h : Sockets g) {fd : Nat} (hpos : 0 < fd) (hnot : fd ∉ g.allFds)
    (port : Int) : Sockets (g.openPort p iport fd port) :=
  (h.addFd (v := .iport p) hpos hnot rfl rfl (fun _ iws hs => .inl ⟨iws, hs, rfl⟩)
    fun _ ifs hf => .inl ⟨ifs, hf, rfl⟩).setIport p _

/-- The port of a device, if it has one. -/
def Graph.portOf (g : Graph) (deviceId : Option Str) : Option Iport :=
  (g.deviceIdToIport.lookup deviceId).bind g.iports

theorem portOf_some {deviceId : Option Str} (hk : g.deviceIdToIport.lookup deviceId = some p) :
    g.portOf deviceId = g.iports p := by
  rw [Graph.portOf, hk, bind_some]

/-- No port of the table has the number. -/
def Graph.IsFree (g : Graph) (port : Int) : Prop :=
  ∀ p ∈ g.deviceIdToIport.values, ∀ iport, g.iports p = some iport → iport.port ≠ port

/-- A port can be opened: the one that is asked for, or one of a range. -/
def Graph.CanListen (g : Graph) (listens : Int → Bool) (port minPort maxPort : Int) : Prop :=
  0 < port ∧ listens port ∨ (0 < minPort ∧ minPort ≤ maxPort) ∧
    ∃ q ∈ portRange minPort maxPort, q ≠ port ∧ listens q ∧ g.IsFree q

section Listen

variable {E : Fault → Prop}

theorem meets_oldPort {busy : Ptr → Prop} (h : Ports register busy w.graph)
    (deviceId : Option Str) :
    Meets (oldPort (w.graph.deviceIdToIport.lookup deviceId)) w (fun r w' => w' = w ∧
      r = ((w.graph.portOf deviceId).any (0 < ·.sFd),
        ((w.graph.portOf deviceId).map Iport.port).getD (-1))) E := by
  cases hk : w.graph.deviceIdToIport.lookup deviceId with
  | none =>
    rw [Graph.portOf, hk]
    exact ⟨rfl, rfl⟩
  | some p =>
    obtain ⟨iport, hp, -⟩ := h.table hk
    rw [oldPort, meets_bind, meets_getIport, portOf_some hk, hp]
    refine ⟨?_, nofun⟩
    rintro _ ⟨⟩
    exact ⟨rfl, rfl⟩

theorem meets_iportOf (deviceId : Option Str) :
    Meets (iportOf deviceId (w.graph.deviceIdToIport.lookup deviceId)) w (fun p w' =>
      w.graph.deviceIdToIport.lookup deviceId = some p ∧ w' = w ∨
      w.graph.deviceIdToIport.lookup deviceId = none ∧ p = w.graph.fresh ∧
        w' = { w with graph := w.graph.newPort deviceId }) E := by
  cases hk : w.graph.deviceIdToIport.lookup deviceId with
  | none => exact .inr ⟨rfl, rfl, rfl⟩
  | some p => exact .inl ⟨rfl, rfl⟩

theorem meets_isTaken (port : Int) {ps : List Ptr} (hlive : ∀ p ∈ ps, w.graph.iports p ≠ none) :
    Meets (isTaken port ps) w (fun taken w' => w' = w ∧
      (taken = true ↔ ∃ p ∈ ps, ∃ iport, w.graph.iports p = some iport ∧ iport.port = port)) E := by
  induction ps with
  | nil => exact ⟨rfl, by simp⟩
  | cons p ps ih =>
    rw [isTaken, meets_bind, meets_getIport]
    refine ⟨fun iport hp => ?_, fun hnone => absurd hnone (hlive p List.mem_cons_self)⟩
    split
    · next hport =>
      exact ⟨rfl, iff_of_true rfl ⟨p, List.mem_cons_self, iport, hp, hport⟩⟩
    · next hport =>
      refine (ih fun q hq => hlive q (List.mem_cons_of_mem p hq)).post ?_
      rintro taken w' ⟨rfl, htaken⟩
      refine ⟨rfl, htaken.trans ?_⟩
      rw [List.exists_mem_cons_iff, hp]
      refine (or_iff_right ?_).symm
      rintro ⟨_, ⟨⟩, heq⟩
      exact hport heq

/-- What `self->listen` gives, if anything: a new descriptor. -/
def Opens (env : Outside) (g : Graph) : Option Nat → Prop
  | none => True
  | some fd => ∃ n, fd = env.socket n g.allFds

theorem meets_listenOn (port : Int) :
    Meets (listenOn env port) w (fun r w' => w'.graph = w.graph ∧ Opens env w.graph r ∧
      ∀ listens : Int → Bool, (∀ n q, env.listens n q = listens q) →
        (r.isSome ↔ listens port)) E := by
  rw [listenOn, meets_bind, meets_ask]
  split
  · next hlistens =>
    refine ⟨rfl, ⟨_, rfl⟩, fun listens hall => ?_⟩
    rw [hall] at hlistens
    simp [hlistens]
  · next hlistens =>
    refine ⟨rfl, trivial, fun listens hall => ?_⟩
    rw [hall] at hlistens
    simpa using hlistens

theorem meets_listenInRange (port : Int) {iports : List Ptr} {ports : List Int}
    (hlive : ∀ p ∈ iports, w.graph.iports p ≠ none) :
    Meets (listenInRange env port iports ports) w (fun r w' => w'.graph = w.graph ∧
      Opens env w.graph (r.map Prod.fst) ∧
      ∀ listens : Int → Bool, (∀ n q, env.listens n q = listens q) →
        (r.isSome ↔ ∃ q ∈ ports, q ≠ port ∧ listens q ∧
          ∀ p ∈ iports, ∀ iport, w.graph.iports p = some iport → iport.port ≠ q)) E := by
  induction ports generalizing w with
  | nil => exact ⟨rfl, trivial, by simp⟩
  | cons q ports ih =>
    refine (meets_isTaken q hlive).bind ?_
    rintro taken w1 ⟨rfl, htaken⟩
    have hfree : taken = false ↔
        ∀ p ∈ iports, ∀ iport, w1.graph.iports p = some iport → iport.port ≠ q := by
      rw [← Bool.not_eq_true, htaken]
      push Not
      rfl
    split
    · next htry =>
      refine (meets_listenOn q).bind fun opened w2 ⟨hgraph, hopens, hlistens⟩ => ?_
      cases opened with
      | some fd =>
        refine ⟨hgraph, hopens, fun listens hall => ?_⟩
        simp only [isSome_some, true_iff]
        refine ⟨q, List.mem_cons_self, htry.2, (hlistens listens hall).mp rfl, ?_⟩
        exact hfree.mp (by simpa using htry.1)
      | none =>
        have hlive2 : ∀ p ∈ iports, w2.graph.iports p ≠ none := by
          rw [hgraph]
          exact hlive
        refine (ih hlive2).post fun r w3 ⟨hgraph3, hopens3, hr⟩ => ?_
        rw [hgraph] at hgraph3 hopens3 hr
        refine ⟨hgraph3, hopens3, fun listens hall => (hr listens hall).trans ?_⟩
        rw [List.exists_mem_cons_iff]
        refine (or_iff_right ?_).symm
        rintro ⟨-, hq, -⟩
        exact absurd ((hlistens listens hall).mpr hq) nofun
    · next htry =>
      refine (ih hlive).post fun r w3 ⟨hgraph3, hopens3, hr⟩ => ?_
      refine ⟨hgraph3, hopens3, fun listens hall => (hr listens hall).trans ?_⟩
      rw [List.exists_mem_cons_iff]
      refine (or_iff_right ?_).symm
      rintro ⟨hne, -, hq⟩
      exact htry ⟨by simpa using hfree.mpr hq, hne⟩

theorem meets_listenForBrowsers {busy : Ptr → Prop} (h : Ports register busy w.graph)
    (port minPort maxPort : Int) :
    Meets (listenForBrowsers env port minPort maxPort) w (fun r w' => w'.graph = w.graph ∧
      Opens env w.graph (r.map Prod.fst) ∧
      ∀ listens : Int → Bool, (∀ n q, env.listens n q = listens q) →
        (r.isSome ↔ w.graph.CanListen listens port minPort maxPort)) E := by
  have hlive : ∀ p ∈ w.graph.deviceIdToIport.values, w.graph.iports p ≠ none := by
    intro p hp
    obtain ⟨k, hk⟩ := Table.exists_of_mem_values hp
    obtain ⟨iport, hp, -⟩ := h.table hk
    rw [hp]
    nofun
  have hdirect : Meets (listenDirectly env port) w (fun r w' => w'.graph = w.graph ∧
      Opens env w.graph r ∧ ∀ listens : Int → Bool, (∀ n q, env.listens n q = listens q) →
        (r.isSome ↔ 0 < port ∧ listens port)) E := by
    unfold listenDirectly
    split
    · next hpos =>
      refine (meets_listenOn port).post fun r w' ⟨hgraph, hopens, hr⟩ => ⟨hgraph, hopens, ?_⟩
      intro listens hall
      exact (hr listens hall).trans (and_iff_right hpos).symm
    · next hpos => exact ⟨rfl, trivial, fun _ _ => by simp [hpos]⟩
  refine hdirect.bind fun r w1 ⟨hgraph, hopens, hr⟩ => ?_
  cases r with
  | some fd =>
    refine ⟨hgraph, hopens, fun listens hall => ?_⟩
    exact ⟨fun _ => .inl ((hr listens hall).mp rfl), fun _ => rfl⟩
  | none =>
    have hno : ∀ listens : Int → Bool, (∀ n q, env.listens n q = listens q) →
        ¬ (0 < port ∧ listens port) := fun listens hall hyes =>
      absurd ((hr listens hall).mpr hyes) nofun
    dsimp only
    split
    · next hrange =>
      rw [meets_bind, meets_get]
      have hlive1 : ∀ p ∈ w1.graph.deviceIdToIport.values, w1.graph.iports p ≠ none := by
        rw [hgraph]
        exact hlive
      refine (meets_listenInRange port hlive1).post fun r w2 ⟨hgraph2, hopens2, hr2⟩ => ?_
      rw [hgraph] at hgraph2 hopens2 hr2
      refine ⟨hgraph2, hopens2, fun listens hall => (hr2 listens hall).trans ?_⟩
      exact ⟨fun hq => .inr ⟨hrange, hq⟩, fun hcan => (hcan.resolve_left (hno listens hall)).2⟩
    · next hrange =>
      refine ⟨hgraph, trivial, fun listens hall => ?_⟩
      refine ⟨nofun, fun hcan => ?_⟩
      exact absurd (hcan.resolve_left (hno listens hall)).1 hrange

end Listen

theorem Ports.settle (h : Ports register (· = p) g) (hp : g.iports p = some iport)
    (hfd : 0 < iport.sFd → g.fdToValue iport.sFd = some (.iport p))
    (hiwi : ∀ i iwi, iport.iwi = some i → g.iwis i = some iwi → 0 < iwi.wiFd)
    (hopened : ∀ d, 0 < iport.sFd → iport.deviceId = some d →
      iport.iwi.isSome ∧ register d iport.sFd iport.port) : Ports register noPort g where
  ofPort := h.ofPort
  ofIwi := h.ofIwi
  portFd hp' hpos := by
    rcases h.portFd hp' hpos with hv | rfl
    · exact .inl hv
    · obtain rfl := some.inj (hp.symm.trans hp')
      exact .inl (hfd hpos)
  portIwi hp' hlink := by
    obtain ⟨iwi, hi, hport, hvalue, hpos⟩ := h.portIwi hp' hlink
    refine ⟨iwi, hi, hport, hvalue, .inl ?_⟩
    rcases hpos with hpos | rfl
    · exact hpos
    · obtain rfl := some.inj (hp.symm.trans hp')
      exact hiwi _ _ hlink hi
  iwiPort := h.iwiPort
  table := h.table
  inTable := h.inTable
  opened hp' hpos hd := by
    rcases h.opened hp' hpos hd with hopen | rfl
    · exact .inl hopen
    · obtain rfl := some.inj (hp.symm.trans hp')
      exact .inl (hopened _ hpos hd)
  shut := h.shut
  freshPort := h.freshPort
  freshIwi := h.freshIwi

theorem Sockets.newPort (h : Sockets g) (deviceId : Option Str) : Sockets (g.newPort deviceId) :=
  ⟨h.zero, h.registered, h.ws, h.fs⟩

theorem wired_iwdpListen_none : Preserves (Wired register) AnyFault (iwdpListen env none) := by
  intro w h
  rw [iwdpListen, meets_bind, meets_get]
  refine (meets_oldPort h.ports none).bind ?_
  rintro _ w1 ⟨rfl, rfl⟩
  dsimp only
  split
  · exact h
  next hoff =>
  rw [meets_bind, meets_ask]
  split
  · exact h.same rfl
  split
  · exact h.same rfl
  have h1 : Wired register { w1 with tick := w1.tick + 1 } := h.same rfl
  have hport : Meets (iportOf none (w1.graph.deviceIdToIport.lookup none))
      { w1 with tick := w1.tick + 1 } (fun p w' => Wired register w' ∧ ∃ iport,
        w'.graph.iports p = some iport ∧ iport.sFd = 0 ∧ iport.deviceId = none) AnyFault := by
    refine (meets_iportOf (w := { w1 with tick := w1.tick + 1 }) none).post fun p w' hcase => ?_
    rcases hcase with ⟨hk, rfl⟩ | ⟨hk, rfl, rfl⟩
    · obtain ⟨iport, hp, hd⟩ := h.ports.table hk
      refine ⟨h1, iport, hp, ?_, hd⟩
      rw [portOf_some hk, hp] at hoff
      simpa using hoff
    · exact ⟨⟨h.sockets.newPort none, h.ports.newPort hk⟩, _, update_self _ _ _, rfl, rfl⟩
  refine hport.bind fun p w2 ⟨h2, iport, hp, hzero, hd⟩ => ?_
  refine (meets_listenForBrowsers h2.ports _ _ _).bind fun r w3 ⟨hgraph, hopens, _⟩ => ?_
  cases r with
  | none => exact h2.same hgraph
  | some r =>
    obtain ⟨fd, port⟩ := r
    obtain ⟨n, rfl⟩ := hopens
    have hpos := env.socket_pos n w2.graph.allFds
    have hnot := env.socket_unused n w2.graph.allFds
    rw [meets_bind]
    refine meets_smAddFd_new (g := w2.graph) h2.sockets hnot (by rw [hgraph]) (by rw [hgraph]) ?_
    rw [if_pos rfl, meets_bind, meets_getIport]
    have hp3 : w3.graph.iports p = some iport := by rw [hgraph, hp]
    refine ⟨fun iport' hp' => ?_, fun _ => trivial⟩
    obtain rfl := some.inj (hp3.symm.trans hp')
    rw [meets_bind, meets_link, meets_pure, hgraph]
    refine ⟨h2.sockets.openPort hpos hnot port, ?_⟩
    refine (h2.ports.openPort h2.sockets hp hzero hpos hnot port).settle
      (update_self _ _ _) (fun _ => update_self _ _ _) ?_ ?_
    · intro i iwi hlink
      rw [(h2.ports.shut hp hzero).1] at hlink
      cases hlink
    · intro d _ hd'
      rw [hd] at hd'
      cases hd'

theorem wired_iwdpStart : Preserves (Wired register) AnyFault (iwdpStart env) := by
  refine wired_iwdpListen_none.bind fun _ => ?_
  refine Preserves.bind (wired_of_quiet fun _ => quiet_ask) fun n => ?_
  split
  · intro w h
    have hnot := env.socket_unused w.tick w.graph.allFds
    rw [meets_bind, meets_newFd, meets_bind]
    refine meets_smAddFd_new h.sockets hnot rfl rfl ?_
    refine ⟨?_, h.ports.kin (Kin.addFd (.refl _) h.sockets hnot rfl id)⟩
    exact h.sockets.addFd (env.socket_pos _ _) hnot rfl rfl (fun _ iws hs => .inl ⟨iws, hs, rfl⟩)
      fun _ ifs hf => .inl ⟨ifs, hf, rfl⟩
  · exact preserves_pure _

theorem wired_iwdpOnDetach (deviceId : Str) :
    Preserves (Wired register) AnyFault (iwdpOnDetach env deviceId) := by
  refine preserves_get.bind fun w => ?_
  split
  · exact preserves_pure _
  refine wired_follow.bind fun iport => ?_
  split
  · exact (wired_smRemoveFd _).bind fun _ => preserves_pure _
  · exact preserves_pure _

/-- **Whatever happens, the links stay whole**, but for a new device. -/
theorem wired_handle (e : Event) (he : ∀ deviceId, e ≠ .attach deviceId) :
    Preserves (Wired register) AnyFault (handle env e) := by
  cases e with
  | start => exact wired_iwdpStart
  | attach deviceId => exact absurd rfl (he deviceId)
  | detach deviceId => exact wired_iwdpOnDetach deviceId
  | accept sFd =>
    intro w h
    rw [handle, meets_bind, meets_get]
    split
    · next p hfd => exact wired_smAccept h (Graph.watched_iff.mp hfd).2
    · exact h
  | bytes fd buf =>
    refine preserves_get.bind fun w => ?_
    split
    · split
      · exact preserves_pure _
      · exact (wired_wsOnRecv _ _).bind fun _ => wired_orRemove _ _
    · exact (wired_relay _ _).bind fun _ => wired_orRemove _ _
    · exact preserves_pure _
  | message fd rpcDict =>
    refine preserves_get.bind fun w => ?_
    split
    · exact (wired_of_alike fun _ => alike_rpcRecvPlist rpcDict).bind fun _ => wired_orRemove _ _
    · exact preserves_pure _
  | gone fd => exact wired_orRemove _ _

end Wired

end IDeviceStack.WebkitProxy.Iwdp
