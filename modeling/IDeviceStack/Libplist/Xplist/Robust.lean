/-
# `Libplist.Xplist.Robust` — reading any text

`node_from_xml` keeps two records of the containers that are open: `node_path`, a
stack of names, and `parent`, from which the `parent` pointers lead to the root.  A
closing tag is compared with the first and then followed in the second.  `OpenPath`
says that the two agree, which every turn of the loop preserves, so that the pointer is
never `NULL` where it is followed.

A root that is an empty element (`<dict/>`) is never put on the path, but `parent` is
set to it, and it stays there: the chain is one node longer than the path from then on.
-/
import IDeviceStack.Libplist.Xplist.Measured

namespace IDeviceStack.Libplist.Xplist

open List

/-! ## The chain of parents -/

/-- `ps` are the nodes from `parent` to the root, over the `parent` pointers. -/
inductive Chain (nodes : List XNode) : Option Nat → List Nat → Prop where
  | root : Chain nodes none []
  | up {p : Nat} {node : XNode} {ps : List Nat} : nodes[p]? = some node →
      Chain nodes node.parent ps → Chain nodes (some p) (p :: ps)

/-- The path item of the node at `p`. -/
def itemAt (nodes : List XNode) (p : Nat) : Option PathItem :=
  nodes[p]?.bind fun node => node.data.pathItem

/-- In `nodes'` there are the nodes of `nodes`, with the same parents, as the same kind. -/
def Keeps (nodes nodes' : List XNode) : Prop :=
  ∀ (p : Nat) (node : XNode), nodes[p]? = some node → ∃ node' : XNode, nodes'[p]? = some node' ∧
    node'.parent = node.parent ∧ node'.data.pathItem = node.data.pathItem

section Chain

variable {nodes nodes' : List XNode} {parent : Option Nat} {ps : List Nat}

theorem Chain.keeps (hkeep : Keeps nodes nodes') (h : Chain nodes parent ps) :
    Chain nodes' parent ps := by
  induction h with
  | root => exact .root
  | up hnode _ ih =>
    obtain ⟨node', hnode', hparent, -⟩ := hkeep _ _ hnode
    exact .up hnode' (by rw [hparent]; exact ih)

theorem Chain.items_keeps (hkeep : Keeps nodes nodes') (h : Chain nodes parent ps) :
    ps.map (itemAt nodes') = ps.map (itemAt nodes) := by
  induction h with
  | root => rfl
  | up hnode _ ih =>
    obtain ⟨node', hnode', -, hitem⟩ := hkeep _ _ hnode
    rw [map_cons, map_cons, ih, itemAt, itemAt, hnode', hnode]
    simp only [Option.bind_some, hitem]

theorem keeps_set {p : Nat} {node node' : XNode} (new : XNode) (hp : nodes[p]? = some node)
    (hparent : node'.parent = node.parent) (hitem : node'.data.pathItem = node.data.pathItem) :
    Keeps nodes (nodes.set p node' ++ [new]) := by
  intro q x hx
  have hq : q < nodes.length := (List.getElem?_eq_some_iff.mp hx).1
  rw [List.getElem?_append_left (by rw [length_set]; exact hq)]
  by_cases hpq : p = q
  · subst hpq
    rw [hp] at hx
    cases hx
    exact ⟨node', List.getElem?_set_self hq, hparent, hitem⟩
  · exact ⟨x, by rw [List.getElem?_set_ne hpq]; exact hx, rfl, rfl⟩

end Chain

theorem XData.pathItem_ne {data : XData} {item : PathItem} (h : data.pathItem = some item) :
    item ≠ .plist := by
  cases data with
  | scalar => cases h
  | array => cases h; decide
  | dict => cases h; decide

/-! ## The invariant -/

/-- The dictionaries and arrays in `node_path`. -/
def State.openItems (s : State) : List PathItem := s.nodePath.filter (· ≠ .plist)

/-- The containers in `node_path` are those from `parent` to the root, without the root if that was
an empty element. -/
structure State.OpenPath (emptyRoot : Bool) (s : State) : Prop where
  noRoot : s.plist = none → emptyRoot = false
  chain : ∃ ps, Chain s.nodes s.parent ps ∧ ps.getLast? = s.plist ∧
    (if emptyRoot then ps.dropLast else ps).map (itemAt s.nodes) = s.openItems.map some

/-- From `s` to `s'` the root was made, and not put on the path: it was an empty element. -/
def emptyRoot (s s' : State) : Bool :=
  s.plist.isNone && s'.plist.isSome && decide (s'.nodePath = s.nodePath)

/-- What a turn may come to: the position is from `pos` on, and the path is still right. -/
def Next.Good (text : List UInt8) (e : Bool) (s : State) (pos : Nat) (next : Next) : Prop :=
  ∀ s', next = .more s' → pos ≤ s'.pos ∧ s'.pos ≤ text.length ∧ s'.OpenPath (e || emptyRoot s s')

section Turn

variable {text : List UInt8} {e : Bool} {s : State} {pos : Nat}

theorem State.OpenPath.init : State.init.OpenPath false :=
  ⟨fun _ => rfl, [], .root, rfl, rfl⟩

theorem emptyRoot_same {s s' : State} (h : s'.plist = s.plist) : emptyRoot s s' = false := by
  rw [emptyRoot, h]
  cases s.plist with
  | none => rfl
  | some r => rfl

theorem fail_good (pos' : Nat) : (s.fail pos').Good text e s pos := by
  intro s' h
  cases h

theorem State.OpenPath.parent_node (h : s.OpenPath e) {item : PathItem} {path : List PathItem}
    (hpath : s.nodePath = item :: path) (hitem : item ≠ .plist) :
    ∃ p node, s.parent = some p ∧ s.nodes[p]? = some node := by
  obtain ⟨ps, hchain, -, hitems⟩ := h.chain
  rw [State.openItems, hpath, filter_cons_of_pos (by simpa using hitem)] at hitems
  generalize s.parent = parent at hchain ⊢
  cases hchain with
  | root => cases e <;> cases hitems
  | up hnode _ => exact ⟨_, _, rfl, hnode⟩

theorem State.OpenPath.sameRoot {s' : State} (h : s'.OpenPath e) (hplist : s'.plist = s.plist) :
    s'.OpenPath (e || emptyRoot s s') := by
  rw [emptyRoot_same hplist, Bool.or_false]
  exact h

theorem State.OpenPath.same {s' : State} (h : s.OpenPath e) (hnodes : s'.nodes = s.nodes)
    (hplist : s'.plist = s.plist) (hparent : s'.parent = s.parent)
    (hitems : s'.openItems = s.openItems) : s'.OpenPath (e || emptyRoot s s') := by
  refine State.OpenPath.sameRoot ?_ hplist
  obtain ⟨hroot, hchain⟩ := h
  exact ⟨by rw [hplist]; exact hroot, by rw [hnodes, hplist, hparent, hitems]; exact hchain⟩

/-! ## Nodes -/

theorem State.OpenPath.enter {nodes' : List XNode} {p r : Nat} {data : XData} (h : s.OpenPath e)
    (hroot : s.plist = some r) (hparent : s.parent = some p) (hkeep : Keeps s.nodes nodes')
    (hnew : nodes'[s.nodes.length]? = some ⟨data, some p⟩) (isEmpty : Bool) :
    (({ s with nodes := nodes' } : State).enter data isEmpty s.nodes.length).OpenPath e := by
  obtain ⟨ps, hchain, hlast, hitems⟩ := h.chain
  have hstay : ({ s with nodes := nodes', keyname := none } : State).OpenPath e := by
    refine ⟨h.noRoot, ps, hchain.keeps hkeep, hlast, ?_⟩
    have hmap := hchain.items_keeps hkeep
    cases e with
    | false => exact hmap.trans hitems
    | true =>
      simp only [if_true, map_dropLast] at hitems ⊢
      rw [hmap]
      exact hitems
  rw [State.enter]
  cases hitem : data.pathItem with
  | none => exact hstay
  | some item =>
    simp only
    split
    · exact hstay
    · obtain ⟨-, ps', hchain', hlast', hitems'⟩ := hstay
      have hps' : ps' ≠ [] := by
        rintro rfl
        rw [List.getLast?_nil] at hlast'
        rw [hroot] at hlast'
        cases hlast'
      refine ⟨h.noRoot, s.nodes.length :: ps', .up hnew ?_, ?_, ?_⟩
      · simp only at hchain' ⊢
        rw [← hparent]
        exact hchain'
      · rw [List.getLast?_cons, hlast']
        show some (s.plist.getD s.nodes.length) = s.plist
        rw [hroot]
        rfl
      · have hopen : itemAt nodes' s.nodes.length = some item := by
          rw [itemAt, hnew]
          exact hitem
        have hcons : (if e = true then (s.nodes.length :: ps').dropLast
            else s.nodes.length :: ps') =
            s.nodes.length :: (if e = true then ps'.dropLast else ps') := by
          cases e with
          | false => rfl
          | true => exact dropLast_cons_of_ne_nil hps'
        simp only [State.openItems] at hitems' ⊢
        rw [hcons, map_cons, hopen, filter_cons_of_pos (by
          simpa using XData.pathItem_ne hitem), map_cons, hitems']

theorem attach_spec {nodes : List XNode} {p : Nat} {node : XNode} (hnode : nodes[p]? = some node)
    (keyname : Option (List UInt8)) (data : XData) :
    ∃ r, attach nodes p keyname data = .ok r ∧ ∀ nodes', r = some nodes' →
      Keeps nodes nodes' ∧ nodes'[nodes.length]? = some ⟨data, some p⟩ := by
  rw [attach, hnode]
  match node, hnode with
  | ⟨.scalar _ _, up⟩, _ => exact ⟨none, rfl, fun _ h => by cases h⟩
  | ⟨.array children, up⟩, hnode =>
    refine ⟨_, rfl, fun nodes' h => ?_⟩
    cases h
    exact ⟨keeps_set _ hnode rfl rfl, by simp⟩
  | ⟨.dict entries, up⟩, hnode =>
    cases keyname with
    | none => exact ⟨none, rfl, fun _ h => by cases h⟩
    | some key =>
      refine ⟨_, rfl, fun nodes' h => ?_⟩
      cases h
      exact ⟨keeps_set _ hnode rfl rfl, by simp⟩

theorem enter_pos (s : State) (data : XData) (isEmpty : Bool) (id : Nat) :
    (s.enter data isEmpty id).pos = s.pos := by
  rw [State.enter]
  split
  · split <;> rfl
  · rfl

theorem enter_plist (s : State) (data : XData) (isEmpty : Bool) (id : Nat) :
    (s.enter data isEmpty id).plist = s.plist := by
  rw [State.enter]
  split
  · split <;> rfl
  · rfl

theorem State.OpenPath.root (h : s.OpenPath e) (hroot : s.plist = none) {data : XData}
    {item : PathItem} (hitem : data.pathItem = some item) (isEmpty : Bool) {s' : State}
    (hs' : s' = ({ s with
      nodes := s.nodes ++ [⟨data, none⟩]
      plist := some s.nodes.length
      parent := some s.nodes.length } : State).enter data isEmpty s.nodes.length) :
    s'.OpenPath (e || emptyRoot s s') := by
  obtain ⟨ps, hchain, hlast, hitems⟩ := h.chain
  have he := h.noRoot hroot
  rw [hroot, List.getLast?_eq_none_iff] at hlast
  rw [hlast, he] at hitems
  have hitems : s.openItems = [] := map_eq_nil_iff.mp hitems.symm
  have hnew : (s.nodes ++ [⟨data, none⟩])[s.nodes.length]? = some ⟨data, none⟩ := by simp
  have hopen : itemAt (s.nodes ++ [⟨data, none⟩]) s.nodes.length = some item := by
    rw [itemAt, hnew]
    exact hitem
  simp only [State.enter, hitem] at hs'
  cases isEmpty with
  | true =>
    -- an empty element is not put on the path
    rw [if_pos rfl] at hs'
    have hempty : (e || emptyRoot s s') = true := by
      simp [emptyRoot, hs', hroot]
    rw [hempty, hs']
    refine ⟨(fun h => by cases h), [s.nodes.length], .up hnew .root, rfl, ?_⟩
    simp only [State.openItems] at hitems ⊢
    rw [hitems]
    rfl
  | false =>
    rw [if_neg (by simp)] at hs'
    have hlonger : ¬ item :: s.nodePath = s.nodePath := fun h => by
      simpa using congrArg List.length h
    have hfilled : (e || emptyRoot s s') = false := by
      simp [emptyRoot, hs', he, hlonger]
    rw [hfilled, hs']
    refine ⟨fun _ => rfl, [s.nodes.length], .up hnew .root, rfl, ?_⟩
    simp only [State.openItems] at hitems ⊢
    rw [filter_cons_of_pos (by simpa using XData.pathItem_ne hitem), hitems]
    simp [hopen]

theorem placeNode_good (h : s.OpenPath e) (hpos : pos ≤ s.pos) (hend : s.pos ≤ text.length)
    (data : XData) (isEmpty : Bool) :
    ∃ next, placeNode s data isEmpty = .ok next ∧ next.Good text e s pos := by
  obtain ⟨pos', err, nodes, plist, parent, keyname, hasContent, nodePath⟩ := s
  obtain ⟨ps, hchain, hlast, -⟩ := h.chain
  simp only at hchain hlast hpos hend
  rw [placeNode]
  cases plist with
  | none =>
    simp only
    cases hitem : data.pathItem with
    | none => exact ⟨_, rfl, fun s' h => by cases h⟩
    | some item =>
      refine ⟨_, rfl, fun s' hs' => ?_⟩
      cases hs'
      refine ⟨?_, ?_, h.root rfl hitem isEmpty rfl⟩
      · rw [enter_pos]
        exact hpos
      · rw [enter_pos]
        exact hend
  | some r =>
    cases hchain with
    | root => cases hlast
    | up hnode _ =>
      obtain ⟨placed, hplaced, hgood⟩ := attach_spec hnode keyname data
      simp only [hplaced, ok_bind]
      cases placed with
      | none => exact ⟨_, rfl, fail_good pos'⟩
      | some nodes' =>
        obtain ⟨hkeep, hnew⟩ := hgood nodes' rfl
        refine ⟨_, rfl, fun s' hs' => ?_⟩
        cases hs'
        refine ⟨?_, ?_, State.OpenPath.sameRoot (h.enter rfl rfl hkeep hnew isEmpty) ?_⟩
        · rw [enter_pos]
          exact hpos
        · rw [enter_pos]
          exact hend
        · exact enter_plist _ data isEmpty _

theorem closeNode_good (h : s.OpenPath e) (hpos : pos ≤ s.pos) (hend : s.pos ≤ text.length)
    {name : List UInt8} (hname : name ≠ lit "plist") :
    ∃ next, closeNode s name = .ok next ∧ next.Good text e s pos := by
  obtain ⟨pos', err, nodes, plist, parent, keyname, hasContent, nodePath⟩ := s
  rw [closeNode]
  match nodePath, h with
  | [], _ => exact ⟨_, rfl, fail_good pos'⟩
  | item :: path, h =>
    simp only
    split
    · exact ⟨_, rfl, fail_good pos'⟩
    · rename_i htype
      have hitem : item ≠ .plist := by
        rintro rfl
        exact htype fun heq => hname heq.symm
      obtain ⟨ps, hchain, hlast, hitems⟩ := h.chain
      simp only [State.openItems] at hchain hlast hitems
      rw [filter_cons_of_pos (by simpa using hitem), map_cons] at hitems
      cases hchain with
      | root => cases e <;> cases hitems
      | @up p node ps hnode hrest =>
        simp only [Option.bind_some, hnode]
        cases hup : node.parent with
        | none => exact ⟨_, rfl, fun s' hs' => by cases hs'⟩
        | some up =>
          refine ⟨_, rfl, fun s' hs' => ?_⟩
          cases hs'
          refine ⟨hpos, hend, State.OpenPath.sameRoot ?_ rfl⟩
          -- so `ps` is not empty: `up` is its first node
          obtain ⟨q, ps, rfl⟩ : ∃ q qs, ps = q :: qs := by
            rw [hup] at hrest
            cases hrest
            exact ⟨_, _, rfl⟩
          refine ⟨h.noRoot, q :: ps, by rw [hup] at hrest; exact hrest, ?_, ?_⟩
          · rw [List.getLast?_cons_cons] at hlast
            exact hlast
          · cases e with
            | false => exact (List.cons.inj hitems).2
            | true =>
              simp only [if_true, dropLast_cons_cons, map_cons] at hitems
              exact (List.cons.inj hitems).2

/-! ## Tags -/

theorem openPlist_good (h : s.OpenPath e) {pos' : Nat} (hpos : pos ≤ pos')
    (hend : pos' ≤ text.length) (tag : Tag) : (openPlist s tag pos').Good text e s pos := by
  intro s' hs'
  rw [openPlist] at hs'
  split at hs'
  · cases hs'
  · split at hs'
    · cases hs'
    · cases hs'
      exact ⟨hpos, hend, h.same rfl rfl rfl rfl⟩

theorem closePlist_good (h : s.OpenPath e) {pos' : Nat} (hpos : pos ≤ pos')
    (hend : pos' ≤ text.length) : (closePlist s pos').Good text e s pos := by
  intro s' hs'
  rw [closePlist] at hs'
  split at hs'
  · cases hs'
  · split at hs'
    · rename_i path hpath
      cases hs'
      refine ⟨hpos, hend, h.same rfl rfl rfl ?_⟩
      simp [State.openItems, hpath]
    · cases hs'

theorem nodeTag_good {p pos' : Nat} (hm : Measured text p) (conv : Conv) {tag : Tag}
    (htag : readTag text p = .ok (some (tag, pos'))) (hclose : tag.name ≠ lit "/plist")
    (h : s.OpenPath e) (hpos : pos ≤ pos') (hend : pos' ≤ text.length) :
    ∃ next, nodeTag conv text s tag pos' = .ok next ∧ next.Good text e s pos := by
  rw [nodeTag]
  obtain ⟨content, hcontent, hgood⟩ :=
    readContent_good hm conv htag hend (s.keyname.isNone && s.inDict)
  have hcontent' : readContent conv text tag pos' (({ s with hasContent := true } :
      State).keyname.isNone && ({ s with hasContent := true } : State).inDict) = .ok content :=
    hcontent
  simp only [hcontent', ok_bind]
  cases content with
  | fail pos'' => exact ⟨_, rfl, fail_good pos''⟩
  | key name pos'' =>
    refine ⟨_, rfl, fun s' hs' => ?_⟩
    cases hs'
    exact ⟨by have := hgood.1; simp only; omega, hgood.2, h.same rfl rfl rfl rfl⟩
  | close pos'' =>
    obtain ⟨rfl, hslash⟩ := hgood
    have hname : tag.name.tail ≠ lit "plist" := by
      intro htail
      cases hn : tag.name with
      | nil =>
        rw [hn] at hslash
        cases hslash
      | cons c rest =>
        rw [hn] at hslash htail
        rw [headD_cons] at hslash
        rw [tail_cons] at htail
        exact hclose (by rw [hn, hslash, htail]; rfl)
    exact closeNode_good (s := { s with hasContent := true, pos := pos'' })
      ⟨h.noRoot, h.chain⟩ hpos hend hname
  | node data pos'' err =>
    obtain ⟨hle, hend'⟩ := hgood
    exact placeNode_good (s := { s with hasContent := true, pos := pos'', err := err })
      ⟨h.noRoot, h.chain⟩ (Nat.le_trans hpos hle) hend' data tag.isEmpty

theorem parseTag_good {p : Nat} (hm : Measured text p) (conv : Conv) (h : s.OpenPath e)
    (hpos : pos ≤ p) : ∃ next, parseTag conv text s p = .ok next ∧ next.Good text e s pos := by
  obtain ⟨r, hr, hbehind⟩ := readTag_spec hm
  rw [parseTag, hr, ok_bind]
  match r, hr, hbehind with
  | none, _, _ => exact ⟨_, rfl, fail_good p⟩
  | some (tag, pos'), hr, hbehind =>
    obtain ⟨hlt, hend⟩ := hbehind tag pos' rfl
    have hle : pos ≤ pos' := by omega
    simp only
    split
    · exact ⟨_, rfl, openPlist_good h hle hend tag⟩
    · split
      · exact ⟨_, rfl, closePlist_good h hle hend⟩
      · rename_i hclose
        exact nodeTag_good hm conv hr hclose h hle hend

/-! ## The turn -/

theorem skip_good (h : s.OpenPath e) {next : Option Nat}
    (hnext : ∀ pos', next = some pos' → pos ≤ pos' ∧ pos' ≤ text.length) :
    (s.skip next).Good text e s pos := by
  intro s' hs'
  cases next with
  | none => cases hs'
  | some pos' =>
    cases hs'
    exact ⟨(hnext pos' rfl).1, (hnext pos' rfl).2, h.same rfl rfl rfl rfl⟩

theorem skipInstruction_spec (hpos : pos ≤ text.length) :
    ∃ r, skipInstruction text pos = .ok r ∧
      ∀ pos', r = some pos' → pos ≤ pos' ∧ pos' ≤ text.length := by
  obtain ⟨r, hr, hle⟩ := findEnd_spec text (lit "?>") true hpos
  rw [skipInstruction, hr, ok_bind]
  cases r with
  | none => exact ⟨none, rfl, by simp⟩
  | some q =>
    obtain ⟨hle, hend⟩ := hle q rfl
    refine ⟨_, rfl, fun pos' h => ?_⟩
    cases h
    exact ⟨by omega, hend⟩

theorem doctypeLoop_spec {fuel : Nat} (hpos : pos ≤ text.length) (hfuel : text.length - pos < fuel) :
    ∃ r, doctypeLoop text fuel pos = .ok r ∧
      ∀ pos' embedded, r = some (pos', embedded) → pos ≤ pos' ∧ pos' ≤ text.length := by
  induction fuel generalizing pos with
  | zero => omega
  | succ fuel ih =>
    rw [doctypeLoop]
    split
    · obtain ⟨q, hq, hle, hend, hstop⟩ :=
        findNext_spec text [32, 9, 13, 10, ch '[', ch '>'] true hpos
      rw [hq, ok_bind]
      split
      · exact ⟨none, rfl, by simp⟩
      · have hqlt : q < text.length := by omega
        rw [byteAt_eq hqlt, ok_bind]
        split
        · exact ⟨_, rfl, fun pos' embedded h => by cases h; omega⟩
        · split
          · exact ⟨_, rfl, fun pos' embedded h => by cases h; omega⟩
          · rename_i hopen hgt
            -- what is left is a blank, and `parse_skip_ws` goes over it
            have hblank : isBlank text[q] = true := by
              have hmem := hstop _ (List.getElem?_eq_getElem hqlt)
              simp only [mem_cons, not_mem_nil, or_false] at hmem
              simp only [isBlank, decide_eq_true_eq]
              tauto
            have hskip := span_of_pos hqlt hblank
            have hle' := span_le text isBlank q
            rw [parseSkipWs_eq, ok_bind]
            obtain ⟨r, hr, hbehind⟩ :=
              ih (show q + span text isBlank q ≤ text.length by omega) (by omega)
            refine ⟨r, hr, fun pos' embedded h => ?_⟩
            obtain ⟨h1, h2⟩ := hbehind pos' embedded h
            exact ⟨by omega, h2⟩
    · exact ⟨_, rfl, fun pos' embedded h => by cases h; omega⟩

theorem skipDoctype_spec (hpos : pos ≤ text.length) :
    ∃ r, skipDoctype text pos = .ok r ∧
      ∀ pos', r = some pos' → pos ≤ pos' ∧ pos' ≤ text.length := by
  obtain ⟨r, hr, hbehind⟩ := doctypeLoop_spec hpos (show text.length - pos < text.length + 1 by omega)
  rw [skipDoctype, hr, ok_bind]
  match r, hbehind with
  | none, _ => exact ⟨none, rfl, by simp⟩
  | some (q, false), hbehind =>
    exact ⟨_, rfl, fun pos' h => by cases h; exact hbehind q false rfl⟩
  | some (q, true), hbehind =>
    obtain ⟨hle, hend⟩ := hbehind q true rfl
    obtain ⟨r, hr, hfound⟩ := findEnd_spec text (lit "]>") true hend
    simp only [hr, ok_bind]
    cases r with
    | none => exact ⟨none, rfl, by simp⟩
    | some q' =>
      obtain ⟨hle', hend'⟩ := hfound q' rfl
      exact ⟨_, rfl, fun pos' h => by cases h; exact ⟨by omega, hend'⟩⟩

theorem startsWith_spec (text : List UInt8) (pos : Nat) (str : List UInt8) :
    ∃ b, startsWith text pos str = .ok b ∧ (b = true → pos + str.length < text.length) := by
  rw [startsWith]
  split
  · rename_i hlt
    obtain ⟨b, hb⟩ := strncmp_spec text str (show pos + str.length ≤ text.length by omega)
    exact ⟨b, hb, fun _ => hlt⟩
  · exact ⟨false, rfl, by simp⟩

theorem skipSpecial_spec (hpos : pos ≤ text.length) :
    ∃ r, skipSpecial text pos = .ok r ∧
      ∀ pos', r = some pos' → pos ≤ pos' ∧ pos' ≤ text.length := by
  obtain ⟨comment, hcomment, hlt⟩ := startsWith_spec text pos (lit "!--")
  rw [skipSpecial, hcomment, ok_bind]
  cases comment with
  | true =>
    have hlt : pos + 3 < text.length := hlt rfl
    obtain ⟨r, hr, hfound⟩ := findEnd_spec text (lit "-->") false (show pos + 3 ≤ text.length by omega)
    simp only [if_true, hr, ok_bind]
    cases r with
    | none => exact ⟨none, rfl, by simp⟩
    | some q =>
      obtain ⟨hle, hend⟩ := hfound q rfl
      exact ⟨_, rfl, fun pos' h => by cases h; exact ⟨by omega, hend⟩⟩
  | false =>
    obtain ⟨doctype, hdoctype, hlt⟩ := startsWith_spec text pos (lit "!DOCTYPE")
    simp only [Bool.false_eq_true, if_false, hdoctype, ok_bind]
    cases doctype with
    | true =>
      have hlt : pos + 8 < text.length := hlt rfl
      obtain ⟨r, hr, hbehind⟩ := skipDoctype_spec (show pos + 8 ≤ text.length by omega)
      refine ⟨r, by simpa using hr, fun pos' h => ?_⟩
      obtain ⟨hle, hend⟩ := hbehind pos' h
      exact ⟨by omega, hend⟩
    | false =>
      obtain ⟨q, hq, -⟩ := findNext_spec text nameEnd true hpos
      simp only [Bool.false_eq_true, if_false, hq, ok_bind]
      exact ⟨none, rfl, by simp⟩

/-- The tag that the turn from `s` comes to, if it comes to one, is `Measured`. -/
def State.Measured (text : List UInt8) (s : State) : Prop :=
  ∀ p c, s.pos + span text isBlank s.pos = p → text[p]? = some (ch '<') →
    text[p + 1]? = some c → c ≠ ch '?' → c ≠ ch '!' → Xplist.Measured text (p + 1)

/-- **One turn.**  It returns, and where there is to be another one the position is further on and
the path is still right. -/
theorem parseStep_good (conv : Conv) (hm : s.Measured text) (h : s.OpenPath e) :
    ∃ next, parseStep conv text s = .ok next ∧ next.Good text e s (s.pos + 1) := by
  have hle := span_le text isBlank s.pos
  rw [parseStep, parseSkipWs_eq, ok_bind]
  obtain ⟨p, hp⟩ : ∃ p, s.pos + span text isBlank s.pos = p := ⟨_, rfl⟩
  rw [hp] at hle ⊢
  split
  · exact ⟨_, rfl, fun s' h => by cases h⟩
  · have hplt : p < text.length := by omega
    rw [byteAt_eq hplt, ok_bind]
    split
    · obtain ⟨q, hq, -⟩ := findNext_spec text [32, 9, 13, 10] false (show p ≤ text.length by omega)
      rw [hq, ok_bind]
      exact ⟨_, rfl, fail_good q⟩
    · rename_i hopen
      have hopen : text[p] = ch '<' := by simpa using hopen
      split
      · exact ⟨_, rfl, fail_good (p + 1)⟩
      · have hplt' : p + 1 < text.length := by omega
        rw [byteAt_eq hplt', ok_bind]
        split
        · obtain ⟨r, hr, hbehind⟩ := skipInstruction_spec (show p + 1 ≤ text.length by omega)
          rw [hr, ok_bind]
          refine ⟨_, rfl, skip_good h fun pos' h' => ?_⟩
          obtain ⟨h1, h2⟩ := hbehind pos' h'
          exact ⟨by omega, h2⟩
        · split
          · obtain ⟨r, hr, hbehind⟩ := skipSpecial_spec (show p + 1 ≤ text.length by omega)
            rw [hr, ok_bind]
            refine ⟨_, rfl, skip_good h fun pos' h' => ?_⟩
            obtain ⟨h1, h2⟩ := hbehind pos' h'
            exact ⟨by omega, h2⟩
          · rename_i hinstr hspecial
            have htag := hm p text[p + 1] hp (by rw [List.getElem?_eq_getElem hplt, hopen])
              (List.getElem?_eq_getElem hplt') hinstr hspecial
            exact parseTag_good htag conv h (by omega)

end Turn

/-! ## Runs -/

/-- The states that `node_from_xml` comes through, each with a note whether the root was an empty
element. -/
inductive Run (conv : Conv) (text : List UInt8) : Bool → State → Prop where
  | init : Run conv text false .init
  | step {e : Bool} {s s' : State} : Run conv text e s → s.pos < text.length → s.err = false →
      parseStep conv text s = .ok (.more s') → Run conv text (e || emptyRoot s s') s'

/-- Every turn of the run finds a tag that is `Measured`, if it finds one. -/
def MeasuredRun (conv : Conv) (text : List UInt8) : Prop :=
  ∀ e s, Run conv text e s → s.pos < text.length → s.err = false → s.Measured text

/-- From every position the function returns, with one that is not before it and in the text. -/
def Advances (text : List UInt8) (f : Nat → Except Stop Nat) : Prop :=
  ∀ pos ≤ text.length, ∃ pos', f pos = .ok pos' ∧ pos ≤ pos' ∧ pos' ≤ text.length

/-- What there is to say about reading a text.  A function that returns has not read behind the end
of the text, not followed a `NULL` pointer, and come to the end of its loop. -/
structure Robust (conv : Conv) (text : List UInt8) : Prop where
  findChar : ∀ c skipQuotes, Advances text (findChar text c skipQuotes)
  findStr : ∀ str skipQuotes, Advances text (findStr text str skipQuotes)
  findNext : ∀ nextchars skipQuotes, Advances text (findNext text nextchars skipQuotes)
  textParts : ∀ tag tagLen skipWs, ∀ pos ≤ text.length, ∃ parts pos',
    getTextParts text tag tagLen skipWs pos = .ok (parts, pos') ∧ pos ≤ pos' ∧ pos' ≤ text.length
  doctype : ∀ pos ≤ text.length, ∃ r, skipDoctype text pos = .ok r ∧
    ∀ pos', r = some pos' → pos ≤ pos' ∧ pos' ≤ text.length
  /-- Every turn of the main loop returns, and moves on or is the last one. -/
  turn : ∀ e s, Run conv text e s → s.pos < text.length → s.err = false →
    ∃ next, parseStep conv text s = .ok next ∧
      ∀ s', next = .more s' → s.pos < s'.pos ∧ s'.pos ≤ text.length
  /-- Where the path ends in a container, `parent` is a node. -/
  parent : ∀ e s, Run conv text e s → ∀ item path, s.nodePath = item :: path → item ≠ .plist →
    ∃ p node, s.parent = some p ∧ s.nodes[p]? = some node
  /-- The containers of the path are the chain of nodes that ends in `parent`. -/
  path : ∀ e s, Run conv text e s → s.OpenPath e
  /-- There is a result, and it is `NULL` if there was an error. -/
  result : ∃ nodes plist err,
    (∀ fuel > text.length, nodeFromXml conv text fuel = .ok (nodes, plist, err)) ∧
      (err = true → plist = none)

section Run

variable {conv : Conv} {text : List UInt8}

theorem Run.good (hm : MeasuredRun conv text) {e : Bool} {s : State} (h : Run conv text e s) :
    s.pos ≤ text.length ∧ s.OpenPath e := by
  induction h with
  | init => exact ⟨Nat.zero_le _, .init⟩
  | step hrun hlt herr hstep ih =>
    obtain ⟨next, hnext, hgood⟩ := parseStep_good conv (hm _ _ hrun hlt herr) ih.2
    rw [hstep] at hnext
    cases hnext
    obtain ⟨-, hend, hopen⟩ := hgood _ rfl
    exact ⟨hend, hopen⟩

theorem Run.parseLoop_ok (hm : MeasuredRun conv text) {e : Bool} {s : State}
    (h : Run conv text e s) :
    ∃ s', ∀ fuel, text.length - s.pos < fuel → parseLoop conv text fuel s = .ok s' := by
  obtain ⟨n, hn⟩ : ∃ n, text.length - s.pos = n := ⟨_, rfl⟩
  induction n using Nat.strongRecOn generalizing e s with
  | ind n ih =>
    have hgood := h.good hm
    by_cases hmore : s.pos < text.length ∧ s.err = false
    · obtain ⟨next, hnext, hstep⟩ := parseStep_good conv (hm e s h hmore.1 hmore.2) hgood.2
      cases next with
      | leave s' =>
        refine ⟨s'.finish, fun fuel hfuel => ?_⟩
        obtain ⟨fuel, rfl⟩ := Nat.exists_eq_succ_of_ne_zero (n := fuel) (by omega)
        rw [parseLoop, if_pos hmore, hnext, ok_bind]
      | out s' =>
        refine ⟨s', fun fuel hfuel => ?_⟩
        obtain ⟨fuel, rfl⟩ := Nat.exists_eq_succ_of_ne_zero (n := fuel) (by omega)
        rw [parseLoop, if_pos hmore, hnext, ok_bind]
      | more s' =>
        obtain ⟨hlt, hend, -⟩ := hstep s' rfl
        obtain ⟨r, hr⟩ := ih (text.length - s'.pos) (by omega)
          (h.step hmore.1 hmore.2 hnext) rfl
        refine ⟨r, fun fuel hfuel => ?_⟩
        obtain ⟨fuel, rfl⟩ := Nat.exists_eq_succ_of_ne_zero (n := fuel) (by omega)
        rw [parseLoop, if_pos hmore, hnext, ok_bind]
        exact hr fuel (by omega)
    · refine ⟨s.finish, fun fuel hfuel => ?_⟩
      obtain ⟨fuel, rfl⟩ := Nat.exists_eq_succ_of_ne_zero (n := fuel) (by omega)
      rw [parseLoop, if_neg hmore]

theorem nodeFromXml_robust (conv : Conv) (text : List UInt8) (hm : MeasuredRun conv text) :
    Robust conv text where
  findChar c skipQuotes pos hpos := findCharLoop_spec text c skipQuotes hpos (by omega)
  findStr str skipQuotes pos hpos := findStrLoop_spec text str skipQuotes hpos (by omega)
  findNext nextchars skipQuotes pos hpos := by
    obtain ⟨pos', hrun, hle, hend, -⟩ := findNext_spec text nextchars skipQuotes hpos
    exact ⟨pos', hrun, hle, hend⟩
  textParts tag tagLen skipWs pos hpos := by
    obtain ⟨⟨parts, pos'⟩, hrun, hle, hend, -⟩ := getTextParts_good tag tagLen skipWs hpos
    exact ⟨parts, pos', hrun, hle, hend⟩
  doctype pos hpos := skipDoctype_spec hpos
  turn e s hrun hlt herr := by
    obtain ⟨next, hnext, hgood⟩ := parseStep_good conv (hm e s hrun hlt herr) (hrun.good hm).2
    refine ⟨next, hnext, fun s' hs' => ?_⟩
    obtain ⟨hpos, hend, -⟩ := hgood s' hs'
    exact ⟨hpos, hend⟩
  parent e s hrun item path hpath hitem := (hrun.good hm).2.parent_node hpath hitem
  path e s hrun := (hrun.good hm).2
  result := by
    obtain ⟨s, hs⟩ := Run.parseLoop_ok hm .init
    refine ⟨s.nodes, if s.err then none else s.plist, s.err, fun fuel hfuel => ?_, fun herr => ?_⟩
    · rw [nodeFromXml, hs fuel (by omega)]
      rfl
    · rw [herr]
      rfl

end Run

theorem Robust.returns {conv : Conv} {plistXml : List UInt8} {length : Nat}
    (h : Robust conv (plistXml.take length)) :
    ∃ r, ∀ fuel > length, plistFromXml conv plistXml length fuel = .ok r := by
  obtain ⟨nodes, plist, err, hresult, -⟩ := h.result
  by_cases hlen : length = 0
  · exact ⟨([], none), fun fuel _ => by rw [plistFromXml, if_pos hlen]⟩
  · refine ⟨(nodes, plist), fun fuel hfuel => ?_⟩
    have hle := length_take_le length plistXml
    rw [plistFromXml, if_neg hlen, hresult fuel (by omega)]
    rfl

theorem MeasuredRun.of_length (conv : Conv) {text : List UInt8} (h : text.length < 2 ^ 31) :
    MeasuredRun conv text := by
  intro e s _ _ _ p c _ _ _ _ _
  exact Measured.of_length h (p + 1)

/-! ## A long tag -/

/-- A tag with a name of `n` letters. -/
def nameTag (n : Nat) : List UInt8 := ch '<' :: (List.replicate n (ch 'a') ++ [ch '>'])

theorem nameTag_length (n : Nat) : (nameTag n).length = n + 2 := by
  simp [nameTag]

theorem parseStep_nameTag (conv : Conv) {n : Nat} (hn : 2 ^ 31 ≤ n) :
    parseStep conv (nameTag n) .init = .error (.fault (nameTag n).length) := by
  obtain ⟨m, rfl⟩ : ∃ m, n = m + 1 := ⟨n - 1, by omega⟩
  have h0 : (nameTag (m + 1)).drop 0 = [] ++ ch '<' :: (ch 'a' ::
      (List.replicate m (ch 'a') ++ [ch '>'])) := rfl
  have h1 : (nameTag (m + 1)).drop 1 = List.replicate (m + 1) (ch 'a') ++ [ch '>'] := rfl
  have hlen := nameTag_length (m + 1)
  have hblank : span (nameTag (m + 1)) isBlank 0 = 0 := span_of_drop h0 (by simp) (by decide)
  have hname : span (nameTag (m + 1)) (· ∉ tagEnd) 1 = m + 1 := by
    have h := span_of_drop (p := (· ∉ tagEnd)) h1
      (fun x hx => by rw [eq_of_mem_replicate hx]; decide) (by decide)
    rwa [length_replicate] at h
  have hnul : (0 : UInt8) ∉ (nameTag (m + 1)).drop 1 := by
    rw [h1]
    intro hmem
    rcases mem_append.mp hmem with hmem | hmem
    · exact absurd (eq_of_mem_replicate hmem) (by decide)
    · exact absurd (mem_singleton.mp hmem) (by decide)
  have hread : readTag (nameTag (m + 1)) 1 = .error (.fault (nameTag (m + 1)).length) := by
    rw [readTag, findNext_eq, ok_bind, hname, if_neg (by omega), Nat.add_sub_cancel_left, copyName,
      if_neg (by omega), if_neg (not_or.mpr ⟨by omega, hnul⟩), error_bind]
  have hpos : State.init.pos = 0 := rfl
  rw [parseStep, parseSkipWs_eq, ok_bind, hpos, hblank, Nat.add_zero, if_neg (by omega),
    byteAt_of_drop h0, ok_bind, if_neg (by decide), if_neg (by omega),
    byteAt_of_drop (drop_succ_of_drop h0), ok_bind, if_neg (by decide), if_neg (by decide), parseTag,
    Nat.zero_add, hread, error_bind]

/-- With a name of 2 GiB, which a buffer may hold, the text is not read. -/
theorem nameTag_not_robust :
    (nameTag (2 ^ 31)).length < 2 ^ 32 ∧
      ∀ conv, ¬ Robust conv ((nameTag (2 ^ 31)).take (nameTag (2 ^ 31)).length) := by
  have hlen := nameTag_length (2 ^ 31)
  refine ⟨by omega, fun conv h => ?_⟩
  rw [take_length] at h
  obtain ⟨next, hnext, -⟩ := h.turn false .init .init (by rw [hlen]; exact Nat.succ_pos _) rfl
  rw [parseStep_nameTag conv (Nat.le_refl _)] at hnext
  cases hnext

end IDeviceStack.Libplist.Xplist
