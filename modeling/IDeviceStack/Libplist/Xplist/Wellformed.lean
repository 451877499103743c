/-
# `Libplist.Xplist.Wellformed` — what the reader makes is a plist

Whatever the text is, the nodes that `node_from_xml` leaves are a tree: the children of a
node are behind it in the list.  The `length` of each node goes with its value, and the
keys of a dictionary are C strings.
-/
import IDeviceStack.Libplist.Xplist.Opened

namespace IDeviceStack.Libplist.Xplist

open List

/-- The `length` of a node is that of its value.  There are no nodes for keys, and no UIDs. -/
def XData.Honest : XData → Prop
  | .scalar (.boolean _) length => length = 1
  | .scalar (.uint _) length => length = 8 ∨ length = 16
  | .scalar (.real _) length => length = 8
  | .scalar (.string strval) length => length = strval.length
  | .scalar (.date _) length => length = 8
  | .scalar (.data buff) length => length = buff.length
  | .scalar (.key _) _ => False
  | .scalar (.uid _) _ => False
  | .array _ => True
  | .dict entries => ∀ e ∈ entries, NulFree e.1

/-- A list of nodes that is a forest. -/
structure Wellformed (nodes : List XNode) : Prop where
  honest : ∀ (i : Nat) (node : XNode), nodes[i]? = some node → node.data.Honest
  below : ∀ (i : Nat) (node : XNode), nodes[i]? = some node → ∀ c ∈ node.data.children,
    i < c ∧ c < nodes.length

/-- The nodes of a state, with the root among them. -/
structure State.Sound (s : State) : Prop where
  nodes : Wellformed s.nodes
  root : ∀ r, s.plist = some r → r < s.nodes.length

/-- The state that a turn leads to. -/
def Next.state : Next → State
  | .more s => s
  | .leave s => s
  | .out s => s

section Nodes

variable {nodes : List XNode} {data : XData} {s s' : State}

theorem mem_setEntry_of {entries : List (List UInt8 × Nat)} {key : List UInt8} {id : Nat}
    {e : List UInt8 × Nat} (h : e ∈ setEntry entries key id) : e = (key, id) ∨ e ∈ entries := by
  induction entries with
  | nil => exact .inl (mem_singleton.mp h)
  | cons x entries ih =>
    rw [setEntry] at h
    split at h
    · rcases mem_cons.mp h with h | h
      · exact .inl h
      · exact .inr (mem_cons_of_mem _ h)
    · rcases mem_cons.mp h with h | h
      · exact .inr (h ▸ mem_cons_self)
      · exact (ih h).imp_right (mem_cons_of_mem _)

theorem Wellformed.append (h : Wellformed nodes) (hhonest : data.Honest) (hnew : data.children = [])
    (parent : Option Nat) : Wellformed (nodes ++ [⟨data, parent⟩]) := by
  have hcases (i : Nat) (node : XNode) (hi : (nodes ++ [⟨data, parent⟩])[i]? = some node) :
      nodes[i]? = some node ∨ node = ⟨data, parent⟩ := by
    by_cases hlt : i < nodes.length
    · rw [List.getElem?_append_left hlt] at hi
      exact .inl hi
    · rw [List.getElem?_append_right (by omega)] at hi
      exact .inr (mem_singleton.mp (mem_of_getElem? hi))
  refine ⟨fun i node hi => ?_, fun i node hi c hc => ?_⟩
  · rcases hcases i node hi with hold | rfl
    · exact h.honest i node hold
    · exact hhonest
  · rw [length_append]
    rcases hcases i node hi with hold | rfl
    · have := h.below i node hold c hc
      omega
    · rw [hnew] at hc
      cases hc

theorem Wellformed.attach {nodes' : List XNode} {p : Nat} {keyname : Option (List UInt8)}
    (h : Wellformed nodes) (hhonest : data.Honest) (hnew : data.children = [])
    (hrun : attach nodes p keyname data = .ok (some nodes')) :
    Wellformed nodes' ∧ nodes.length < nodes'.length := by
  -- the container, with one more child
  suffices hset : ∀ node node' : XNode, nodes[p]? = some node → node'.data.Honest →
      (∀ c ∈ node'.data.children, c = nodes.length ∨ c ∈ node.data.children) →
      Wellformed (nodes.set p node' ++ [⟨data, some p⟩]) by
    rw [Xplist.attach] at hrun
    rcases hnode : nodes[p]? with _ | ⟨_ | children | entries, up⟩
      <;> simp only [hnode] at hrun <;> try cases hrun
    · refine ⟨hset _ _ hnode trivial (fun c hc => ?_), by simp⟩
      rcases mem_append.mp hc with hc | hc
      · exact .inr hc
      · exact .inl (mem_singleton.mp hc)
    · cases keyname with
      | none => cases hrun
      | some key =>
        cases hrun
        refine ⟨hset _ _ hnode (fun e he => ?_) (fun c hc => ?_), by simp⟩
        · rcases mem_setEntry_of he with rfl | he
          · exact nulFree_cstr key
          · exact h.honest p _ hnode e he
        · obtain ⟨e, he, rfl⟩ := mem_map.mp hc
          rcases mem_setEntry_of he with rfl | he
          · exact .inl rfl
          · exact .inr (mem_map_of_mem he)
  intro node node' hnode hhonest' hchildren
  have hp : p < nodes.length := (List.getElem?_eq_some_iff.mp hnode).1
  have hcases (i : Nat) (x : XNode) (hi : (nodes.set p node' ++ [⟨data, some p⟩])[i]? = some x) :
      (i = p ∧ x = node') ∨ nodes[i]? = some x ∨ x = ⟨data, some p⟩ := by
    by_cases hlt : i < nodes.length
    · rw [List.getElem?_append_left (by rwa [length_set])] at hi
      by_cases hip : p = i
      · subst hip
        rw [List.getElem?_set_self hp] at hi
        exact .inl ⟨rfl, (Option.some.inj hi).symm⟩
      · rw [List.getElem?_set_ne hip] at hi
        exact .inr (.inl hi)
    · rw [List.getElem?_append_right (by rw [length_set]; omega)] at hi
      exact .inr (.inr (mem_singleton.mp (mem_of_getElem? hi)))
  refine ⟨fun i x hi => ?_, fun i x hi c hc => ?_⟩
  · rcases hcases i x hi with ⟨-, rfl⟩ | hold | rfl
    · exact hhonest'
    · exact h.honest i x hold
    · exact hhonest
  · rw [length_append, length_set]
    rcases hcases i x hi with ⟨rfl, rfl⟩ | hold | rfl
    · rcases hchildren c hc with rfl | hmem
      · exact ⟨hp, Nat.lt_succ_self _⟩
      · have := h.below _ _ hnode c hmem
        omega
    · have := h.below i x hold c hc
      omega
    · rw [hnew] at hc
      cases hc

/-! ## Turns -/

theorem State.Sound.same (h : s.Sound) (hnodes : s'.nodes = s.nodes) (hplist : s'.plist = s.plist) :
    s'.Sound := by
  refine ⟨by rw [hnodes]; exact h.nodes, fun r hr => ?_⟩
  rw [hnodes]
  exact h.root r (hplist ▸ hr)

theorem enter_nodes (s : State) (data : XData) (isEmpty : Bool) (id : Nat) :
    (s.enter data isEmpty id).nodes = s.nodes := by
  rw [State.enter]
  split
  · split <;> rfl
  · rfl

theorem enter_sound (h : s.Sound) (data : XData) (isEmpty : Bool) (id : Nat) :
    (s.enter data isEmpty id).Sound :=
  h.same (enter_nodes s data isEmpty id) (enter_plist s data isEmpty id)

variable {next : Next}

theorem placeNode_sound (h : s.Sound) (hhonest : data.Honest) (hnew : data.children = [])
    {isEmpty : Bool} (hrun : placeNode s data isEmpty = .ok next) : next.state.Sound := by
  obtain ⟨pos, err, nodes, plist, parent, keyname, hasContent, nodePath⟩ := s
  have hwf : Wellformed nodes := h.nodes
  rw [placeNode] at hrun
  cases plist with
  | none =>
    have hroot (r : Nat) (hr : some nodes.length = some r) :
        r < (nodes ++ [(⟨data, none⟩ : XNode)]).length := by
      cases hr
      simp
    simp only at hrun
    split at hrun
    · cases hrun
      exact ⟨hwf.append hhonest hnew none, hroot⟩
    · cases hrun
      refine enter_sound ?_ data isEmpty _
      exact ⟨hwf.append hhonest hnew none, hroot⟩
  | some r =>
    have hr : r < nodes.length := h.root r rfl
    cases parent with
    | none =>
      cases hrun
      refine enter_sound ?_ data isEmpty _
      refine ⟨hwf.append hhonest hnew none, fun r' hr' => ?_⟩
      cases hr'
      rw [length_append]
      exact Nat.lt_add_right 1 hr
    | some p =>
      obtain ⟨placed, hplaced, hrun⟩ := bind_eq_ok hrun
      cases placed with
      | none =>
        cases hrun
        exact h.same rfl rfl
      | some nodes' =>
        cases hrun
        obtain ⟨hwf', hlt⟩ := hwf.attach hhonest hnew hplaced
        refine enter_sound ?_ data isEmpty _
        refine ⟨hwf', fun r' hr' => ?_⟩
        cases hr'
        exact Nat.lt_trans hr hlt

theorem closeNode_sound (h : s.Sound) {name : List UInt8} (hrun : closeNode s name = .ok next) :
    next.state.Sound := by
  rw [closeNode] at hrun
  split at hrun
  · cases hrun
    exact h.same rfl rfl
  · split at hrun
    · cases hrun
      exact h.same rfl rfl
    · split at hrun
      · cases hrun
      · simp only at hrun
        split at hrun
        · cases hrun
          exact h.same rfl rfl
        · cases hrun
          exact h.same rfl rfl

theorem openPlist_sound (h : s.Sound) (tag : Tag) (pos : Nat) : (openPlist s tag pos).state.Sound := by
  rw [openPlist]
  split
  · exact h.same rfl rfl
  · split
    · exact h.same rfl rfl
    · exact h.same rfl rfl

theorem closePlist_sound (h : s.Sound) (pos : Nat) : (closePlist s pos).state.Sound := by
  rw [closePlist]
  split
  · exact h.same rfl rfl
  · split
    · exact h.same rfl rfl
    · exact h.same rfl rfl

/-- What stands for a tag has no children yet. -/
def Content.Fresh : Content → Prop
  | .node data _ _ => data.Honest ∧ data.children = []
  | _ => True

theorem integerData_fresh (str : List UInt8) :
    (integerData str).Honest ∧ (integerData str).children = [] := by
  rw [integerData]
  generalize (strtoull 0 (if str.headD 0 = ch '-' ∨ str.headD 0 = ch '+' then str.tail
    else str)).1 = intval
  split
  · exact ⟨Or.inl rfl, rfl⟩
  · split
    · exact ⟨Or.inl rfl, rfl⟩
    · exact ⟨Or.inr rfl, rfl⟩

theorem dataData_fresh {tp : TextPart} {str : List UInt8} (h : dataData tp str = .ok data) :
    data.Honest ∧ data.children = [] := by
  rw [dataData] at h
  generalize (if tp.length > 0 then base64decode (str.take tp.length) else []) = buff at h
  split at h
  · cases h
    exact ⟨rfl, rfl⟩
  · cases h

section Content

variable {text : List UInt8} {tag : Tag} {pos : Nat} {content : Content}

theorem textContent_fresh {emptyTag noText : XData}
    {full : TextPart → List UInt8 × Nat → Except Stop XData}
    (h : textContent text tag pos emptyTag noText full = .ok content)
    (hempty : emptyTag.Honest ∧ emptyTag.children = []) (hnone : noText.Honest ∧ noText.children = [])
    (hfull : ∀ tp c d, full tp c = .ok d → d.Honest ∧ d.children = []) : content.Fresh := by
  rw [textContent] at h
  split at h
  · cases h
    exact hempty
  · obtain ⟨r, -, h⟩ := bind_eq_ok h
    obtain ⟨_ | _ | ⟨tp, rest⟩, _⟩ := r
    · cases h
      trivial
    · cases h
      exact hnone
    · obtain ⟨c, -, h⟩ := bind_eq_ok h
      cases c with
      | none =>
        cases h
        trivial
      | some c =>
        obtain ⟨d, hd, h⟩ := bind_eq_ok h
        cases h
        exact hfull tp c d hd

theorem booleanContent_fresh {boolval : UInt8}
    (h : booleanContent text tag pos boolval = .ok content) : content.Fresh := by
  rw [booleanContent] at h
  split at h
  · cases h
    exact ⟨rfl, rfl⟩
  · obtain ⟨r, -, h⟩ := bind_eq_ok h
    cases h
    exact ⟨rfl, rfl⟩

theorem stringContent_fresh {wantsKey : Bool}
    (h : stringContent text tag pos wantsKey = .ok content) : content.Fresh := by
  rw [stringContent] at h
  split at h
  · cases h
    exact ⟨rfl, rfl⟩
  · obtain ⟨r, -, h⟩ := bind_eq_ok h
    obtain ⟨_ | parts, _⟩ := r
    · cases h
      trivial
    · obtain ⟨str, -, h⟩ := bind_eq_ok h
      cases str with
      | none =>
        cases h
        trivial
      | some str =>
        simp only at h
        split at h
        · cases h
          trivial
        · cases h
          exact ⟨rfl, rfl⟩

theorem readContent_fresh {conv : Conv} {wantsKey : Bool}
    (h : readContent conv text tag pos wantsKey = .ok content) : content.Fresh := by
  revert h
  rw [readContent]
  have hite {c : Prop} [Decidable c] {t e : Except Stop Content}
      (ht : c → t = .ok content → content.Fresh) (he : ¬c → e = .ok content → content.Fresh) :
      (if c then t else e) = .ok content → content.Fresh :=
    iteInduction (motive := (· = Except.ok content → content.Fresh)) ht he
  refine hite (fun _ h => ?_) fun _ => ?_
  · cases h
    exact ⟨fun _ he => (by cases he), rfl⟩
  refine hite (fun _ h => ?_) fun _ => ?_
  · cases h
    exact ⟨trivial, rfl⟩
  refine hite (fun _ h => ?_) fun _ => ?_
  · refine textContent_fresh h ⟨Or.inl rfl, rfl⟩ ⟨Or.inl rfl, rfl⟩ fun tp c d hd => ?_
    cases hd
    exact integerData_fresh c.1
  refine hite (fun _ h => ?_) fun _ => ?_
  · refine textContent_fresh h ⟨rfl, rfl⟩ ⟨rfl, rfl⟩ fun tp c d hd => ?_
    cases hd
    exact ⟨rfl, rfl⟩
  refine hite (fun _ h => booleanContent_fresh h) fun _ => ?_
  refine hite (fun _ h => booleanContent_fresh h) fun _ => ?_
  refine hite (fun _ h => stringContent_fresh h) fun _ => ?_
  refine hite (fun _ h => ?_) fun _ => ?_
  · exact textContent_fresh h ⟨rfl, rfl⟩ ⟨rfl, rfl⟩ fun tp c d hd => dataData_fresh hd
  refine hite (fun _ h => ?_) fun _ => ?_
  · refine textContent_fresh h ⟨rfl, rfl⟩ ⟨rfl, rfl⟩ fun tp c d hd => ?_
    cases hd
    exact ⟨rfl, rfl⟩
  refine hite (fun _ h => ?_) fun _ h => ?_
  · cases h
    trivial
  · cases h
    trivial

end Content

variable {conv : Conv} {text : List UInt8}

theorem nodeTag_sound (h : s.Sound) {tag : Tag} {pos : Nat}
    (hrun : nodeTag conv text s tag pos = .ok next) : next.state.Sound := by
  rw [nodeTag] at hrun
  obtain ⟨content, hcontent, hrun⟩ := bind_eq_ok hrun
  have hfresh := readContent_fresh hcontent
  cases content with
  | fail q =>
    cases hrun
    exact h.same rfl rfl
  | key name q =>
    cases hrun
    exact h.same rfl rfl
  | close q =>
    have hs : State.Sound { s with hasContent := true, pos := q } := h.same rfl rfl
    exact closeNode_sound hs hrun
  | node data q err =>
    have hs : State.Sound { s with hasContent := true, pos := q, err := err } := h.same rfl rfl
    exact placeNode_sound hs hfresh.1 hfresh.2 hrun

theorem parseTag_sound (h : s.Sound) {pos : Nat} (hrun : parseTag conv text s pos = .ok next) :
    next.state.Sound := by
  rw [parseTag] at hrun
  obtain ⟨r, -, hrun⟩ := bind_eq_ok hrun
  obtain _ | ⟨tag, q⟩ := r
  · cases hrun
    exact h.same rfl rfl
  · simp only at hrun
    split at hrun
    · cases hrun
      exact openPlist_sound h tag q
    · split at hrun
      · cases hrun
        exact closePlist_sound h q
      · exact nodeTag_sound h hrun

theorem skip_sound (h : s.Sound) (r : Option Nat) : (s.skip r).state.Sound := by
  cases r with
  | none => exact h.same rfl rfl
  | some pos => exact h.same rfl rfl

theorem parseStep_sound (h : s.Sound) (hrun : parseStep conv text s = .ok next) :
    next.state.Sound := by
  rw [parseStep] at hrun
  obtain ⟨pos, -, hrun⟩ := bind_eq_ok hrun
  split at hrun
  · cases hrun
    exact h.same rfl rfl
  obtain ⟨c, -, hrun⟩ := bind_eq_ok hrun
  split at hrun
  · obtain ⟨q, -, hrun⟩ := bind_eq_ok hrun
    cases hrun
    exact h.same rfl rfl
  split at hrun
  · cases hrun
    exact h.same rfl rfl
  obtain ⟨d, -, hrun⟩ := bind_eq_ok hrun
  split at hrun
  · obtain ⟨r, -, hrun⟩ := bind_eq_ok hrun
    cases hrun
    exact skip_sound h r
  split at hrun
  · obtain ⟨r, -, hrun⟩ := bind_eq_ok hrun
    cases hrun
    exact skip_sound h r
  · exact parseTag_sound h hrun

theorem State.Sound.finish (h : s.Sound) : s.finish.Sound := by
  rw [State.finish]
  split
  · exact h
  · exact h.same rfl rfl

variable {fuel : Nat}

theorem parseLoop_sound {s t : State} (h : s.Sound) (hrun : parseLoop conv text fuel s = .ok t) :
    t.Sound := by
  induction fuel generalizing s with
  | zero => cases hrun
  | succ fuel ih =>
    rw [parseLoop] at hrun
    split at hrun
    · obtain ⟨next, hstep, hrun⟩ := bind_eq_ok hrun
      have hnext := parseStep_sound h hstep
      cases next with
      | more u => exact ih hnext hrun
      | leave u =>
        cases hrun
        exact State.Sound.finish hnext
      | out u =>
        cases hrun
        exact hnext
    · cases hrun
      exact h.finish

theorem State.Sound.init : State.init.Sound :=
  ⟨⟨fun _ _ h => (by cases h), fun _ _ h => (by cases h)⟩, fun _ h => (by cases h)⟩

/-- **What `plist_from_xml` leaves is a tree.** -/
theorem plistFromXml_wellformed {xml : List UInt8} {length root : Nat}
    (h : plistFromXml conv xml length fuel = .ok (nodes, some root)) :
    Wellformed nodes ∧ root < nodes.length := by
  rw [plistFromXml] at h
  split at h
  · cases h
  · obtain ⟨⟨nodes', plist, err⟩, hparse, h⟩ := bind_eq_ok h
    cases h
    rw [nodeFromXml] at hparse
    obtain ⟨t, hloop, hparse⟩ := bind_eq_ok hparse
    have hsound := parseLoop_sound State.Sound.init hloop
    simp only [Except.ok.injEq, Prod.mk.injEq] at hparse
    obtain ⟨rfl, hplist, -⟩ := hparse
    refine ⟨hsound.nodes, hsound.root root ?_⟩
    split at hplist
    · cases hplist
    · exact hplist

/-! ## Trees -/

/-- A tree that the reader makes. -/
inductive FromXml : Plist → Prop where
  | scalar {value : Scalar} {length : Nat} : (XData.scalar value length).Honest →
      FromXml (.scalar value length)
  | array {children : List Plist} : (∀ t ∈ children, FromXml t) → FromXml (.array children)
  | dict {pairs : List (List UInt8 × Plist)} : (∀ p ∈ pairs, NulFree p.1) →
      (∀ p ∈ pairs, FromXml p.2) →
      FromXml (.dict (pairs.flatMap fun p => [.scalar (.key p.1) p.1.length, p.2]))

theorem mapM_all {α β : Type} {P : β → Prop} {f : α → Option β} {l : List α}
    (h : ∀ a ∈ l, ∃ b, f a = some b ∧ P b) : ∃ bs, l.mapM f = some bs ∧ ∀ b ∈ bs, P b := by
  induction l with
  | nil => exact ⟨[], rfl, fun _ hb => by cases hb⟩
  | cons a l ih =>
    obtain ⟨b, hb, hP⟩ := h a mem_cons_self
    obtain ⟨bs, hbs, hPs⟩ := ih fun x hx => h x (mem_cons_of_mem a hx)
    refine ⟨b :: bs, by rw [mapM_cons, hb, hbs]; rfl, fun x hx => ?_⟩
    rcases mem_cons.mp hx with rfl | hx
    · exact hP
    · exact hPs x hx

theorem mapM_pairs {entries : List (List UInt8 × Nat)} {f : Nat → Option Plist}
    (h : ∀ e ∈ entries, ∃ t, f e.2 = some t ∧ FromXml t) :
    ∃ (ls : List (List Plist)) (pairs : List (List UInt8 × Plist)),
      (entries.mapM fun e => (f e.2).map fun value =>
        [.scalar (.key e.1) e.1.length, value]) = some ls ∧
      ls.flatten = (pairs.flatMap fun p => [.scalar (.key p.1) p.1.length, p.2]) ∧
      (∀ p ∈ pairs, ∃ e ∈ entries, e.1 = p.1) ∧ ∀ p ∈ pairs, FromXml p.2 := by
  induction entries with
  | nil => exact ⟨[], [], rfl, rfl, fun _ hp => (by cases hp), fun _ hp => (by cases hp)⟩
  | cons e entries ih =>
    obtain ⟨t, ht, hxml⟩ := h e mem_cons_self
    obtain ⟨ls, pairs, hls, hflat, hkeys, htrees⟩ :=
      ih fun x hx => h x (mem_cons_of_mem e hx)
    refine ⟨[.scalar (.key e.1) e.1.length, t] :: ls, (e.1, t) :: pairs, ?_, ?_, fun p hp => ?_,
      fun p hp => ?_⟩
    · rw [mapM_cons, ht, hls]
      rfl
    · rw [flatten_cons, hflat, flatMap_cons]
    · rcases mem_cons.mp hp with rfl | hp
      · exact ⟨e, mem_cons_self, rfl⟩
      · obtain ⟨x, hx, hname⟩ := hkeys p hp
        exact ⟨x, mem_cons_of_mem e hx, hname⟩
    · rcases mem_cons.mp hp with rfl | hp
      · exact hxml
      · exact htrees p hp

theorem Wellformed.treeAt (h : Wellformed nodes) {i : Nat} (hi : i < nodes.length)
    (hfuel : nodes.length - i ≤ fuel) : ∃ t, treeAt nodes fuel i = some t ∧ FromXml t := by
  induction fuel generalizing i with
  | zero => omega
  | succ fuel ih =>
    have hnode : nodes[i]? = some nodes[i] := List.getElem?_eq_getElem hi
    have hhonest := h.honest i _ hnode
    have hbelow := h.below i _ hnode
    rw [Xplist.treeAt, hnode]
    match nodes[i], hhonest, hbelow with
    | ⟨.scalar value length, _⟩, hhonest, _ => exact ⟨_, rfl, .scalar hhonest⟩
    | ⟨.array children, _⟩, _, hbelow =>
      have hchild (c : Nat) (hc : c ∈ children) :
          ∃ t, Xplist.treeAt nodes fuel c = some t ∧ FromXml t := by
        obtain ⟨hlt, hlen⟩ := hbelow c hc
        exact ih hlen (by omega)
      obtain ⟨ts, hts, hall⟩ := mapM_all hchild
      exact ⟨.array ts, congrArg (Option.map Plist.array) hts, .array hall⟩
    | ⟨.dict entries, _⟩, hhonest, hbelow =>
      have hvalue (e : List UInt8 × Nat) (he : e ∈ entries) :
          ∃ t, Xplist.treeAt nodes fuel e.2 = some t ∧ FromXml t := by
        obtain ⟨hlt, hlen⟩ := hbelow e.2 (mem_map_of_mem he)
        exact ih hlen (by omega)
      obtain ⟨ls, pairs, hls, hflat, hkeys, htrees⟩ := mapM_pairs hvalue
      refine ⟨.dict ls.flatten, by simp only [hls, Option.map_some], ?_⟩
      rw [hflat]
      refine .dict (fun p hp => ?_) htrees
      obtain ⟨e, he, hname⟩ := hkeys p hp
      rw [← hname]
      exact hhonest e he

end Nodes

end IDeviceStack.Libplist.Xplist
