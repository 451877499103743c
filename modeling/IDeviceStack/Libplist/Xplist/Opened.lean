/-
# `Libplist.Xplist.Opened` — the containers that are open

While a text is read the root and the container that takes the next node are joined both
ways: over the `parent` pointers, and over the children from the root down.  `Opened`
says that, and that there are no more containers on `node_path` than on the way, so that
closing tags for the whole of `node_path` end the parse well.
-/
import IDeviceStack.Libplist.Xplist.Robust
import IDeviceStack.Libplist.Xplist.Roundtrip

namespace IDeviceStack.Libplist.Xplist

open Relation List Option

theorem bind_eq_ok {α β : Type} {x : Except Stop α} {f : α → Except Stop β} {b : β}
    (h : (x >>= f) = .ok b) : ∃ a, x = .ok a ∧ f a = .ok b := by
  cases x with
  | ok a => exact ⟨a, rfl, h⟩
  | error e => cases h

/-! ## Trees -/

/-- The nodes that a node has for children. -/
def XData.children : XData → List Nat
  | .scalar _ _ => []
  | .array children => children
  | .dict entries => entries.map Prod.snd

/-- What a node is, but for where its children are. -/
def XData.shape : XData → XData
  | .scalar value length => .scalar value length
  | .array children => .array (children.map fun _ => 0)
  | .dict entries => .dict (entries.map fun e => (e.1, 0))

/-- The node at the end of a path from `id`, which is a list of indices. -/
def nodeAt (nodes : List XNode) : Nat → List Nat → Option XNode
  | id, [] => nodes[id]?
  | id, i :: path =>
    nodes[id]?.bind fun node => node.data.children[i]?.bind fun child => nodeAt nodes child path

/-- Two trees are the same if their nodes are, at the end of every path. -/
def SameTree (nodes : List XNode) (root : Nat) (nodes' : List XNode) (root' : Nat) : Prop :=
  ∀ path, (nodeAt nodes root path).map (·.data.shape) = (nodeAt nodes' root' path).map (·.data.shape)

/-! ## The way to the open container -/

/-- From the root `r` over children to `p`, over containers that are all open: `items` are
not more than these, and the root may be missing. -/
inductive Linked (nodes : List XNode) (r : Nat) : Nat → List PathItem → Prop where
  | root {node : XNode} {items : List PathItem} : nodes[r]? = some node → node.parent = none →
      node.data.pathItem.isSome → items.length ≤ 1 → Linked nodes r r items
  | child {p c : Nat} {node up : XNode} {item : PathItem} {items : List PathItem} :
      nodes[c]? = some node → node.parent = some p → node.data.pathItem.isSome → p < c →
      nodes[p]? = some up → c ∈ up.data.children → Linked nodes r p items →
      Linked nodes r c (item :: items)

section Linked

variable {nodes nodes' : List XNode} {r q : Nat} {items : List PathItem}

theorem Linked.node (h : Linked nodes r q items) :
    ∃ node, nodes[q]? = some node ∧ node.data.pathItem.isSome := by
  cases h with
  | root hnode _ hitem _ => exact ⟨_, hnode, hitem⟩
  | child hnode _ hitem _ _ _ _ => exact ⟨_, hnode, hitem⟩

theorem Linked.change (h : Linked nodes r q items)
    (hbefore : ∀ i < q, ∀ node, nodes[i]? = some node → nodes'[i]? = some node)
    (hq : ∀ node, nodes[q]? = some node → ∃ node', nodes'[q]? = some node' ∧
      node'.parent = node.parent ∧ node'.data.pathItem = node.data.pathItem) :
    Linked nodes' r q items := by
  induction h with
  | root hnode hparent hitem hlen =>
    obtain ⟨node', hnode', hparent', hitem'⟩ := hq _ hnode
    exact .root hnode' (hparent'.trans hparent) (hitem' ▸ hitem) hlen
  | child hnode hparent hitem hlt hup hmem _ ih =>
    obtain ⟨node', hnode', hparent', hitem'⟩ := hq _ hnode
    refine .child hnode' (hparent'.trans hparent) (hitem' ▸ hitem) hlt (hbefore _ hlt _ hup) hmem
      (ih (fun i hi => hbefore i (Nat.lt_trans hi hlt)) fun node hnode => ?_)
    exact ⟨node, hbefore _ hlt _ hnode, rfl, rfl⟩

theorem Linked.path (h : Linked nodes r q items) : ∃ path, ∀ nodes' : List XNode,
    (∀ i < q, ∀ node, nodes[i]? = some node → nodes'[i]? = some node) →
    ∀ rest, nodeAt nodes' r (path ++ rest) = nodeAt nodes' q rest := by
  induction h with
  | root => exact ⟨[], fun _ _ _ => rfl⟩
  | @child p c node up item items _ _ _ hlt hup hmem _ ih =>
    obtain ⟨path, hpath⟩ := ih
    obtain ⟨i, hi⟩ := mem_iff_getElem?.mp hmem
    refine ⟨path ++ [i], fun nodes' hbefore rest => ?_⟩
    rw [append_assoc, singleton_append, hpath nodes' (fun j hj => hbefore j (Nat.lt_trans hj hlt)),
      nodeAt, hbefore p hlt up hup, bind_some, hi, bind_some]

end Linked

/-- The open containers of a state. -/
def State.Opened (s : State) : Prop :=
  match s.plist with
  | none => s.parent = none ∧ s.openItems = []
  | some r => ∃ p, s.parent = some p ∧ Linked s.nodes r p s.openItems

theorem State.Opened.init : State.init.Opened := ⟨rfl, rfl⟩

section Turn

variable {s s' : State}

theorem State.Opened.same (h : s.Opened) (hnodes : s'.nodes = s.nodes) (hplist : s'.plist = s.plist)
    (hparent : s'.parent = s.parent) (hitems : s'.openItems = s.openItems) : s'.Opened := by
  rw [State.Opened, hnodes, hplist, hparent, hitems]
  exact h

theorem mem_setEntry (entries : List (List UInt8 × Nat)) (key : List UInt8) (id : Nat) :
    id ∈ (setEntry entries key id).map Prod.snd := by
  induction entries with
  | nil => exact mem_singleton_self id
  | cons e entries ih =>
    rw [setEntry]
    split
    · exact mem_cons_self
    · exact mem_cons_of_mem _ ih

variable {nodes : List XNode} {p pos : Nat} {data : XData} {tag : Tag}

theorem attach_taken {nodes' : List XNode} {keyname : Option (List UInt8)}
    (h : attach nodes p keyname data = .ok (some nodes')) :
    ∃ node node', nodes[p]? = some node ∧ nodes' = nodes.set p node' ++ [⟨data, some p⟩] ∧
      node'.parent = node.parent ∧ node'.data.pathItem = node.data.pathItem ∧
      nodes.length ∈ node'.data.children := by
  rw [attach] at h
  rcases hnode : nodes[p]? with _ | ⟨_ | children | entries, up⟩
    <;> simp only [hnode] at h <;> try cases h
  · exact ⟨_, _, rfl, rfl, rfl, rfl, mem_append_right _ (mem_singleton_self _)⟩
  · cases keyname with
    | none => cases h
    | some key =>
      cases h
      exact ⟨_, _, rfl, rfl, rfl, rfl, mem_setEntry entries (cstr key) nodes.length⟩

theorem attach_container {node : XNode} (hnode : nodes[p]? = some node)
    (hitem : node.data.pathItem.isSome) (keyname : Option (List UInt8)) (data : XData) :
    (∃ nodes', attach nodes p keyname data = .ok (some nodes')) ∨
      keyname = none ∧ node.data.pathItem = some .dict ∧ attach nodes p keyname data = .ok none := by
  rw [attach, hnode]
  obtain ⟨_ | children | entries, up⟩ := node
  · cases hitem
  · exact .inl ⟨_, rfl⟩
  · cases keyname with
    | none => exact .inr ⟨rfl, rfl, rfl⟩
    | some key => exact .inl ⟨_, rfl⟩

theorem Linked.taken {nodes' : List XNode} {r : Nat} {items : List PathItem}
    {keyname : Option (List UInt8)} (h : Linked nodes r p items)
    (hrun : attach nodes p keyname data = .ok (some nodes')) :
    Linked nodes' r p items ∧ nodes'[nodes.length]? = some ⟨data, some p⟩ ∧ p < nodes.length ∧
      ∃ node, nodes'[p]? = some node ∧ nodes.length ∈ node.data.children := by
  obtain ⟨node, node', hnode, rfl, hparent, hitem, hmem⟩ := attach_taken hrun
  have hp : p < nodes.length := (List.getElem?_eq_some_iff.mp hnode).1
  have hset : (nodes.set p node' ++ [⟨data, some p⟩])[p]? = some node' := by
    rw [List.getElem?_append_left (by rwa [length_set]), List.getElem?_set_self hp]
  refine ⟨h.change (fun i hi x hx => ?_) fun x hx => ?_, by simp, hp, node', hset, hmem⟩
  · rw [List.getElem?_append_left (by rw [length_set]; omega), List.getElem?_set_ne (by omega), hx]
  · cases hnode.symm.trans hx
    exact ⟨node', hset, hparent, hitem⟩

theorem placeNode_opened (h : s.Opened) {isEmpty : Bool}
    (hrun : placeNode s data isEmpty = .ok (.more s')) : s'.Opened := by
  obtain ⟨pos, err, nodes, plist, parent, keyname, hasContent, nodePath⟩ := s
  rw [placeNode] at hrun
  cases plist with
  | none =>
    obtain ⟨-, hitems⟩ : parent = none ∧ nodePath.filter (· ≠ .plist) = [] := h
    simp only at hrun
    cases hitem : data.pathItem with
    | none =>
      simp only [hitem, isNone_none, if_true] at hrun
      cases hrun
    | some item =>
      simp only [hitem, isNone_some, Bool.false_eq_true, if_false] at hrun
      cases hrun
      have hnew : (nodes ++ [⟨data, none⟩])[nodes.length]? = some ⟨data, none⟩ := by simp
      have hsome : data.pathItem.isSome := by rw [hitem]; rfl
      rw [State.enter, hitem]
      simp only
      split
      · exact ⟨_, rfl, .root hnew rfl hsome (by rw [State.openItems, hitems]; simp)⟩
      · refine ⟨_, rfl, .root hnew rfl hsome ?_⟩
        rw [State.openItems, filter_cons_of_pos (by simpa using XData.pathItem_ne hitem), hitems]
        simp
  | some r =>
    obtain ⟨p, hparent, hlinked⟩ : ∃ p, parent = some p ∧
      Linked nodes r p (nodePath.filter (· ≠ .plist)) := h
    subst hparent
    simp only at hrun
    obtain ⟨placed, hplaced, hrun⟩ := bind_eq_ok hrun
    cases placed with
    | none => cases hrun
    | some nodes' =>
      cases hrun
      obtain ⟨hlinked', hnew, hlt, node, hnode, hmem⟩ := hlinked.taken hplaced
      rw [State.enter]
      cases hitem : data.pathItem with
      | none => exact ⟨p, rfl, hlinked'⟩
      | some item =>
        simp only
        split
        · exact ⟨p, rfl, hlinked'⟩
        · refine ⟨nodes.length, rfl, ?_⟩
          rw [State.openItems, filter_cons_of_pos
            (by simpa using XData.pathItem_ne hitem)]
          exact .child hnew rfl (by rw [hitem]; rfl) hlt hnode hmem hlinked'

theorem closeNode_opened (h : s.Opened) {name : List UInt8} (hname : name ≠ lit "plist")
    (hrun : closeNode s name = .ok (.more s')) : s'.Opened := by
  obtain ⟨pos, err, nodes, plist, parent, keyname, hasContent, nodePath⟩ := s
  rw [closeNode] at hrun
  cases nodePath with
  | nil => cases hrun
  | cons item path =>
    simp only at hrun
    split at hrun
    · cases hrun
    · rename_i htype
      have hitem : item ≠ .plist := by
        rintro rfl
        exact htype fun heq => hname heq.symm
      have hfilter : (item :: path).filter (· ≠ .plist) = item :: path.filter (· ≠ .plist) :=
        filter_cons_of_pos (by simpa using hitem)
      cases plist with
      | none =>
        obtain ⟨-, hitems⟩ : parent = none ∧ (item :: path).filter (· ≠ .plist) = [] := h
        rw [hfilter] at hitems
        cases hitems
      | some r =>
        obtain ⟨p, hparent, hlinked⟩ : ∃ p, parent = some p ∧
          Linked nodes r p ((item :: path).filter (· ≠ .plist)) := h
        subst hparent
        rw [hfilter] at hlinked
        cases hlinked with
        | root hnode hup _ _ =>
          rw [bind_some, hnode] at hrun
          simp only [hup, isNone_none, if_true] at hrun
          cases hrun
        | @child up c node _ _ _ hnode hup _ _ _ _ hrest =>
          rw [bind_some, hnode] at hrun
          simp only [hup, isNone_some, Bool.false_eq_true, if_false] at hrun
          cases hrun
          exact ⟨up, rfl, hrest⟩

/-! ## Turns -/

theorem openPlist_opened (h : s.Opened) (hrun : openPlist s tag pos = .more s') : s'.Opened := by
  rw [openPlist] at hrun
  split at hrun
  · cases hrun
  · split at hrun
    · cases hrun
    · cases hrun
      exact h.same rfl rfl rfl rfl

theorem closePlist_opened (h : s.Opened) (hrun : closePlist s pos = .more s') : s'.Opened := by
  rw [closePlist] at hrun
  split at hrun
  · cases hrun
  · split at hrun
    · rename_i path hpath
      cases hrun
      exact h.same rfl rfl rfl (by simp [State.openItems, hpath])
    · cases hrun

variable {text : List UInt8} {q : Nat}

theorem textContent_ne_close {a b : XData}
    {full : TextPart → List UInt8 × Nat → Except Stop XData} :
    textContent text tag pos a b full ≠ .ok (.close q) := by
  intro h
  rw [textContent] at h
  split at h
  · cases h
  · obtain ⟨r, -, h⟩ := bind_eq_ok h
    obtain ⟨_ | _ | ⟨tp, rest⟩, _⟩ := r
    · cases h
    · cases h
    · obtain ⟨content, -, h⟩ := bind_eq_ok h
      cases content with
      | none => cases h
      | some content =>
        obtain ⟨data, -, h⟩ := bind_eq_ok h
        cases h

theorem booleanContent_ne_close {boolval : UInt8} :
    booleanContent text tag pos boolval ≠ .ok (.close q) := by
  intro h
  rw [booleanContent] at h
  split at h
  · cases h
  · obtain ⟨r, -, h⟩ := bind_eq_ok h
    cases h

theorem stringContent_ne_close {wantsKey : Bool} :
    stringContent text tag pos wantsKey ≠ .ok (.close q) := by
  intro h
  rw [stringContent] at h
  split at h
  · cases h
  · obtain ⟨r, -, h⟩ := bind_eq_ok h
    obtain ⟨_ | parts, _⟩ := r
    · cases h
    · obtain ⟨str, -, h⟩ := bind_eq_ok h
      cases str with
      | none => cases h
      | some str =>
        simp only at h
        split at h
        · cases h
        · cases h

variable {conv : Conv}

theorem readContent_close_slash {wantsKey : Bool}
    (h : readContent conv text tag pos wantsKey = .ok (.close q)) : tag.name.headD 0 = ch '/' := by
  revert h
  rw [readContent]
  have hite {c : Prop} [Decidable c] {t e : Except Stop Content}
      (ht : c → t = .ok (.close q) → tag.name.headD 0 = ch '/')
      (he : ¬c → e = .ok (.close q) → tag.name.headD 0 = ch '/') :
      (if c then t else e) = .ok (.close q) → tag.name.headD 0 = ch '/' :=
    iteInduction (motive := (· = Except.ok (Content.close q) → tag.name.headD 0 = ch '/')) ht he
  refine hite (fun _ h => by cases h) fun _ => ?_
  refine hite (fun _ h => by cases h) fun _ => ?_
  refine hite (fun _ h => absurd h textContent_ne_close) fun _ => ?_
  refine hite (fun _ h => absurd h textContent_ne_close) fun _ => ?_
  refine hite (fun _ h => absurd h booleanContent_ne_close) fun _ => ?_
  refine hite (fun _ h => absurd h booleanContent_ne_close) fun _ => ?_
  refine hite (fun _ h => absurd h stringContent_ne_close) fun _ => ?_
  refine hite (fun _ h => absurd h textContent_ne_close) fun _ => ?_
  refine hite (fun _ h => absurd h textContent_ne_close) fun _ => ?_
  exact hite (fun hslash _ => hslash) fun _ h => by cases h

theorem nodeTag_opened (h : s.Opened) (hname : tag.name ≠ lit "/plist")
    (hrun : nodeTag conv text s tag pos = .ok (.more s')) : s'.Opened := by
  rw [nodeTag] at hrun
  obtain ⟨content, hcontent, hrun⟩ := bind_eq_ok hrun
  cases content with
  | fail q => cases hrun
  | key name q =>
    cases hrun
    exact h.same rfl rfl rfl rfl
  | close q =>
    have hslash := readContent_close_slash hcontent
    have hs : State.Opened { s with hasContent := true, pos := q } := h.same rfl rfl rfl rfl
    refine closeNode_opened hs ?_ hrun
    intro htail
    refine hname ?_
    cases hn : tag.name with
    | nil =>
      rw [hn] at hslash
      cases hslash
    | cons c rest =>
      rw [hn] at hslash htail
      rw [headD_cons] at hslash
      rw [tail_cons] at htail
      rw [hslash, htail]
      rfl
  | node data q err =>
    have hs : State.Opened { s with hasContent := true, pos := q, err := err } :=
      h.same rfl rfl rfl rfl
    exact placeNode_opened hs hrun

theorem skip_opened (h : s.Opened) {r : Option Nat} (hrun : s.skip r = .more s') : s'.Opened := by
  cases r with
  | none => cases hrun
  | some pos =>
    cases hrun
    exact h.same rfl rfl rfl rfl

theorem parseTag_opened (h : s.Opened) (hrun : parseTag conv text s pos = .ok (.more s')) :
    s'.Opened := by
  rw [parseTag] at hrun
  obtain ⟨r, -, hrun⟩ := bind_eq_ok hrun
  obtain _ | ⟨tag, q⟩ := r
  · cases hrun
  · simp only at hrun
    split at hrun
    · exact openPlist_opened h (Except.ok.inj hrun)
    · split at hrun
      · exact closePlist_opened h (Except.ok.inj hrun)
      · rename_i hname
        exact nodeTag_opened h hname hrun

theorem parseStep_opened (h : s.Opened) (hrun : parseStep conv text s = .ok (.more s')) :
    s'.Opened := by
  rw [parseStep] at hrun
  obtain ⟨pos, -, hrun⟩ := bind_eq_ok hrun
  split at hrun
  · cases hrun
  obtain ⟨c, -, hrun⟩ := bind_eq_ok hrun
  split at hrun
  · obtain ⟨q, -, hrun⟩ := bind_eq_ok hrun
    cases hrun
  split at hrun
  · cases hrun
  obtain ⟨d, -, hrun⟩ := bind_eq_ok hrun
  split at hrun
  · obtain ⟨r, -, hrun⟩ := bind_eq_ok hrun
    exact skip_opened h (Except.ok.inj hrun)
  split at hrun
  · obtain ⟨r, -, hrun⟩ := bind_eq_ok hrun
    exact skip_opened h (Except.ok.inj hrun)
  · exact parseTag_opened h hrun

theorem Turns.opened (h : Turns conv text s s') (hs : s.Opened) : s'.Opened := by
  induction h with
  | refl => exact hs
  | tail _ hturn ih => exact parseStep_opened ih hturn.2.2.2

end Turn

/-! ## The closing tags -/

/-- The closing tags for a path. -/
def closings (path : List PathItem) : List UInt8 :=
  path.flatMap fun item => lit "</" ++ item.type ++ lit ">"

theorem closings_cons (item : PathItem) (path : List PathItem) :
    closings (item :: path) = ch '<' :: ch '/' :: (item.type ++ ch '>' :: closings path) := by
  rw [closings, flatMap_cons, closings]
  simp [lit]

variable {item : PathItem}

theorem readContent_container (conv : Conv) (text : List UInt8) (hitem : item ≠ .plist)
    (len q : Nat) (wantsKey : Bool) :
    readContent conv text ⟨ch '/' :: item.type, len, false⟩ q wantsKey = .ok (.close q) := by
  cases item with
  | plist => exact absurd rfl hitem
  | dict => rfl
  | array => rfl

variable {s : State}

theorem closeNode_type {path : List PathItem} {p : Nat} {node : XNode}
    (hpath : s.nodePath = item :: path) (hparent : s.parent = some p)
    (hnode : s.nodes[p]? = some node) :
    closeNode s item.type =
      if node.parent.isNone then
        .ok (.out { s with nodePath := path, parent := node.parent, keyname := none })
      else .ok (.more { s with nodePath := path, parent := node.parent, keyname := none }) := by
  rw [closeNode, hpath]
  simp only [ne_eq, not_true_eq_false, if_false, hparent, bind_some, hnode]

variable {text : List UInt8}

theorem parseStep_closing (conv : Conv) {b : List UInt8}
    (h : text.drop s.pos = ch '<' :: ch '/' :: (item.type ++ ch '>' :: b)) :
    parseStep conv text s =
      if item = .plist then .ok (closePlist s (s.pos + item.type.length + 3))
      else closeNode { s with hasContent := true, pos := s.pos + item.type.length + 3 } item.type := by
  have hname : text.drop (s.pos + 1) = (ch '/' :: item.type) ++ ch '>' :: b := by
    rw [drop_succ_of_drop h]
    rfl
  have hfacts : IsName (ch '/' :: item.type) ∧ (ch '/' :: item.type).getLast? ≠ some (ch '/') ∧
      ch '/' :: item.type ≠ lit "plist" ∧ (ch '/' :: item.type = lit "/plist" ↔ item = .plist) := by
    cases item with
    | plist => decide
    | dict => decide
    | array => decide
  obtain ⟨hisName, hslash, hopen, hclose⟩ := hfacts
  have hpos : s.pos + 1 + (ch '/' :: item.type).length + 1 = s.pos + item.type.length + 3 := by
    rw [length_cons]
    omega
  rw [parseStep_tag (w := []) conv h (fun _ hx => by cases hx) (by decide) (by decide)]
  rw [length_nil, Nat.add_zero, parseTag, readTag_open hisName hslash hname, ok_bind]
  simp only
  rw [if_neg hopen, hpos]
  by_cases hitem : item = .plist
  · rw [if_pos (hclose.mpr hitem), if_pos hitem]
  · rw [if_neg (fun h => hitem (hclose.mp h)), if_neg hitem, nodeTag]
    simp only [readContent_container conv text hitem, ok_bind, tail_cons]

theorem parseLoop_more (conv : Conv) {s' : State} (hlt : s.pos < text.length) (herr : s.err = false)
    (hstep : parseStep conv text s = .ok (.more s')) (fuel : Nat) :
    parseLoop conv text (fuel + 1) s = parseLoop conv text fuel s' := by
  rw [parseLoop, if_pos ⟨hlt, herr⟩, hstep, ok_bind]

theorem parseLoop_out (conv : Conv) {text : List UInt8} {s s' : State} (hlt : s.pos < text.length)
    (herr : s.err = false) (hstep : parseStep conv text s = .ok (.out s')) (fuel : Nat) :
    parseLoop conv text (fuel + 1) s = .ok s' := by
  rw [parseLoop, if_pos ⟨hlt, herr⟩, hstep, ok_bind]

/-- **The closing tags of the path end the parse well**, and the nodes stay. -/
theorem parseLoop_closings (conv : Conv) {path : List PathItem} (hpath : s.nodePath = path)
    (hs : s.Opened) (herr : s.err = false) (hcontent : s.hasContent = true) (hroot : s.plist.isSome)
    (h : text.drop s.pos = closings path) :
    ∃ fuel t, parseLoop conv text fuel s = .ok t ∧ t.err = false ∧ t.nodes = s.nodes ∧
      t.plist = s.plist := by
  induction path generalizing s with
  | nil =>
    have hge : text.length ≤ s.pos := drop_eq_nil_iff.mp h
    refine ⟨1, s, ?_, herr, rfl, rfl⟩
    rw [parseLoop, if_neg (by omega), State.finish, if_pos hpath]
  | cons item path ih =>
    rw [closings_cons] at h
    have hlt := lt_length_of_drop h
    have hrest : text.drop (s.pos + item.type.length + 3) = closings path := by
      have hsplit : text.drop (s.pos + 2) = item.type ++ ch '>' :: closings path :=
        drop_succ_of_drop (drop_succ_of_drop h)
      have hgt := drop_succ_of_drop (drop_add_of_drop hsplit)
      rwa [show s.pos + 2 + item.type.length + 1 = s.pos + item.type.length + 3 by omega] at hgt
    have hstep := parseStep_closing conv h
    by_cases hitem : item = .plist
    · subst hitem
      rw [if_pos rfl, closePlist, hcontent, hpath] at hstep
      obtain ⟨fuel, t, hrun, hsame⟩ := ih
        (s := { s with
          pos := s.pos + PathItem.plist.type.length + 3
          hasContent := true
          nodePath := path }) rfl
        (hs.same rfl rfl rfl (by simp [State.openItems, hpath])) herr rfl hroot hrest
      exact ⟨fuel + 1, t, (parseLoop_more conv hlt herr hstep fuel).trans hrun, hsame⟩
    · have hclosed : State.Opened
          { s with hasContent := true, pos := s.pos + item.type.length + 3 } :=
        hs.same rfl rfl rfl rfl
      have hopened := hs
      obtain ⟨pos, err, nodes, plist, parent, keyname, hasContent, nodePath⟩ := s
      obtain ⟨r, rfl⟩ := isSome_iff_exists.mp hroot
      simp only at hpath
      subst hpath
      obtain ⟨p, hparent, hlinked⟩ : ∃ p, parent = some p ∧
        Linked nodes r p ((item :: path).filter (· ≠ .plist)) := hopened
      subst hparent
      obtain ⟨node, hnode, -⟩ := hlinked.node
      rw [if_neg hitem] at hstep
      have hclose := closeNode_type (s := ⟨pos + item.type.length + 3, err, nodes, some r, some p,
        keyname, true, item :: path⟩) rfl rfl hnode
      have htype : item.type ≠ lit "plist" := by
        cases item with
        | plist => exact absurd rfl hitem
        | dict => decide
        | array => decide
      have hmore (s' : State) (hrun : closeNode ⟨pos + item.type.length + 3, err, nodes, some r,
          some p, keyname, true, item :: path⟩ item.type = .ok (.more s')) : s'.Opened :=
        closeNode_opened hclosed htype hrun
      have hstep := hstep.trans hclose
      rw [hclose] at hmore
      by_cases hup : node.parent.isNone = true
      · rw [if_pos hup] at hstep
        exact ⟨1, _, parseLoop_out conv hlt herr hstep 0, herr, rfl, rfl⟩
      · rw [if_neg hup] at hstep hmore
        obtain ⟨fuel, t, hrun, hsame⟩ := ih rfl (hmore _ rfl) herr rfl rfl hrest
        exact ⟨fuel + 1, t, (parseLoop_more conv hlt herr hstep fuel).trans hrun, hsame⟩

end IDeviceStack.Libplist.Xplist
