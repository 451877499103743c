/-
# `Libplist.Xplist.EmptyElements` — `<tag/>` and `<tag></tag>`

`node_from_xml` has a branch of its own for an empty element in every kind of node.  The
two forms of a tag come to the same where they leave the same state behind them, for the
rest of the text is read alike then (`Ahead`).  They do not

- for the root, if it is a container: `<dict></dict>` is the whole document, while
  behind `<dict/>` the parse goes on with the root as the parent of what comes;
- for a key where one is awaited: `<key></key>` is the empty key, `<key/>` is a string
  that the dictionary does not take;
- for a date: `<date/>` has the value 0, `<date></date>` is the time 0 of the system,
  978307200 seconds earlier.
-/
import IDeviceStack.Libplist.Xplist.Ahead
import IDeviceStack.Libplist.Xplist.Opened

namespace IDeviceStack.Libplist.Xplist

open Relation List Option

/-! ## Results -/

/-- What `plist_from_xml` leaves when the loop has ended in `s`. -/
def State.result (s : State) : List XNode × Option Nat := (s.nodes, if s.err then none else s.plist)

/-- `plist_from_xml` returns, with enough turns. -/
def Returns (conv : Conv) (text : List UInt8) (r : List XNode × Option Nat) : Prop :=
  ∃ fuel, plistFromXml conv text text.length fuel = .ok r

/-- Both texts are rejected, or the trees are the same. -/
def SameResult : List XNode × Option Nat → List XNode × Option Nat → Prop
  | (_, none), (_, none) => True
  | (nodes, some root), (nodes', some root') => SameTree nodes root nodes' root'
  | _, _ => False

/-- The two texts give the same result. -/
def SameParse (conv : Conv) (text text' : List UInt8) : Prop :=
  (∀ r, Returns conv text r → ∃ r', Returns conv text' r' ∧ SameResult r r') ∧
    ∀ r', Returns conv text' r' → ∃ r, Returns conv text r ∧ SameResult r r'

section Results

variable {conv : Conv} {text text' : List UInt8} {s s' : State}

theorem SameResult.refl (r : List XNode × Option Nat) : SameResult r r := by
  obtain ⟨nodes, root⟩ := r
  cases root with
  | none => trivial
  | some root => exact fun _ => rfl

theorem parseLoop_add {fuel : Nat} {t : State} (h : parseLoop conv text fuel s = .ok t) (n : Nat) :
    parseLoop conv text (fuel + n) s = .ok t := by
  induction fuel generalizing s with
  | zero => cases h
  | succ fuel ih =>
    rw [show fuel + 1 + n = fuel + n + 1 by omega]
    rw [parseLoop] at h ⊢
    split at h
    · rename_i hmore
      obtain ⟨next, hstep, h⟩ := bind_eq_ok h
      rw [if_pos hmore, hstep, ok_bind]
      cases next with
      | more u => exact ih h
      | leave u => exact h
      | out u => exact h
    · rename_i hend
      rw [if_neg hend]
      exact h

theorem Turns.loop (h : Turns conv text s s') :
    ∃ n, ∀ fuel, parseLoop conv text (fuel + n) s = parseLoop conv text fuel s' := by
  induction h using ReflTransGen.head_induction_on with
  | refl => exact ⟨0, fun _ => rfl⟩
  | head hturn _ ih =>
    obtain ⟨n, hn⟩ := ih
    obtain ⟨hlt, -, herr, hstep⟩ := hturn
    exact ⟨n + 1, fun fuel => (parseLoop_more conv hlt herr hstep (fuel + n)).trans (hn fuel)⟩

theorem plistFromXml_loop (hne : text ≠ []) (fuel : Nat) :
    plistFromXml conv text text.length fuel = (do
      let t ← parseLoop conv text fuel .init
      .ok t.result) := by
  rw [plistFromXml, if_neg (by rwa [length_eq_zero_iff]), nodeFromXml, take_length]
  cases parseLoop conv text fuel .init with
  | error e => rfl
  | ok t => rfl

theorem returns_iff (h : Turns conv text .init s) (hne : text ≠ []) {r : List XNode × Option Nat} :
    Returns conv text r ↔ ∃ fuel t, parseLoop conv text fuel s = .ok t ∧ r = t.result := by
  obtain ⟨n, hn⟩ := h.loop
  constructor
  · rintro ⟨fuel, hrun⟩
    rw [plistFromXml_loop hne] at hrun
    obtain ⟨t, hloop, hresult⟩ := bind_eq_ok hrun
    cases hresult
    exact ⟨fuel, t, (hn fuel).symm.trans (parseLoop_add hloop n), rfl⟩
  · rintro ⟨fuel, t, hloop, rfl⟩
    refine ⟨fuel + n, ?_⟩
    rw [plistFromXml_loop hne, hn, hloop]
    rfl

theorem Returns.unique {r r' : List XNode × Option Nat} (h : Returns conv text r)
    (h' : Returns conv text r') : r = r' := by
  obtain ⟨fuel, hrun⟩ := h
  obtain ⟨fuel', hrun'⟩ := h'
  by_cases hne : text = []
  · subst hne
    exact Except.ok.inj (hrun.symm.trans hrun')
  rw [plistFromXml_loop hne] at hrun hrun'
  obtain ⟨t, hloop, hresult⟩ := bind_eq_ok hrun
  obtain ⟨t', hloop', hresult'⟩ := bind_eq_ok hrun'
  have hsame := (parseLoop_add hloop fuel').symm.trans (Nat.add_comm fuel fuel' ▸
    parseLoop_add hloop' fuel)
  cases hsame
  exact Except.ok.inj (hresult.symm.trans hresult')

theorem State.Like.result {t t' : State} (h : t.Like t') : t'.result = t.result := by
  rw [h]
  rfl

theorem sameParse_next (h : Turns conv text .init s) (h' : Turns conv text' .init s')
    (hlt : s.pos < text.length) (hlt' : s'.pos < text'.length) (herr : s.err = false)
    (herr' : s'.err = false) {next next' : Next} (hstep : parseStep conv text s = .ok next)
    (hstep' : parseStep conv text' s' = .ok next') (hsame : next.Same text text' next') :
    SameParse conv text text' := by
  have hrelated (fuel : Nat) : Lib.Related State.Like (parseLoop conv text (fuel + 1) s)
      (parseLoop conv text' (fuel + 1) s') := by
    rw [parseLoop, parseLoop, if_pos ⟨hlt, herr⟩, if_pos ⟨hlt', herr'⟩, hstep, hstep', ok_bind,
      ok_bind]
    cases next <;> cases next' <;> try exact hsame.elim
    case more.more => exact State.Same.parseLoop conv hsame fuel
    case leave.leave => exact Lib.Related.ok (State.Like.finish hsame)
    case out.out => exact Lib.Related.ok hsame
  have hne : text ≠ [] := length_pos_iff.mp (Nat.zero_lt_of_lt hlt)
  have hne' : text' ≠ [] := length_pos_iff.mp (Nat.zero_lt_of_lt hlt')
  constructor
  · intro r hr
    obtain ⟨fuel, t, hloop, rfl⟩ := (returns_iff h hne).mp hr
    obtain ⟨t', hloop', hlike⟩ := (hrelated fuel).eq_ok (parseLoop_add hloop 1)
    refine ⟨t'.result, (returns_iff h' hne').mpr ⟨_, t', hloop', rfl⟩, ?_⟩
    rw [hlike.result]
    exact SameResult.refl _
  · intro r hr
    obtain ⟨fuel, t', hloop', rfl⟩ := (returns_iff h' hne').mp hr
    obtain ⟨t, hloop, hlike⟩ := (hrelated fuel).eq_ok' (parseLoop_add hloop' 1)
    refine ⟨t.result, (returns_iff h hne).mpr ⟨_, t, hloop, rfl⟩, ?_⟩
    rw [hlike.result]
    exact SameResult.refl _

theorem SameParse.result {r r' : List XNode × Option Nat} (h : SameParse conv text text')
    (hr : Returns conv text r) (hr' : Returns conv text' r') : SameResult r r' := by
  obtain ⟨r1, hr1, hsame⟩ := h.1 r hr
  rwa [hr1.unique hr'] at hsame

end Results

/-! ## The two forms -/

/-- The tags that stand for a node or a key. -/
def elementNames : List (List UInt8) :=
  [lit "dict", lit "array", lit "integer", lit "real", lit "true", lit "false", lit "string",
    lit "key", lit "data", lit "date"]

/-- `<name/>`. -/
def emptyForm (name : List UInt8) : List UInt8 := ch '<' :: (name ++ [ch '/', ch '>'])

/-- `<name></name>`. -/
def filledForm (name : List UInt8) : List UInt8 :=
  ch '<' :: (name ++ ch '>' :: ch '<' :: ch '/' :: (name ++ [ch '>']))

/-- The parser comes to the tag behind `a` in the state `s`, whatever follows the name. -/
structure Comes (conv : Conv) (a name : List UInt8) (s : State) : Prop where
  turns : ∀ rest, Turns conv (a ++ ch '<' :: (name ++ rest)) .init s
  le : s.pos ≤ a.length
  blank : ∀ c ∈ a.drop s.pos, isBlank c
  err : s.err = false

/-- The node of `<name/>`. -/
def emptyData (name : List UInt8) : XData :=
  if name = lit "dict" then .dict []
  else if name = lit "array" then .array []
  else if name = lit "integer" then .scalar (.uint 0) 8
  else if name = lit "real" then .scalar (.real 0) 8
  else if name = lit "true" then .scalar (.boolean 1) 1
  else if name = lit "false" then .scalar (.boolean 0) 1
  else if name = lit "data" then .scalar (.data []) 0
  else if name = lit "date" then .scalar (.date 0) 8
  else .scalar (.string []) 0

/-- The node of `<name></name>`. -/
def filledData (conv : Conv) (name : List UInt8) : XData :=
  if name = lit "date" then .scalar (.date (conv.toDouble (0 - 978307200))) 8 else emptyData name

theorem elementNames_facts : ∀ name ∈ elementNames, IsName name ∧ IsName (name ++ [ch '/']) ∧
    name.getLast? ≠ some (ch '/') ∧ name ≠ lit "plist" ∧ name ≠ lit "/plist" ∧
    name.headD (ch '?') ≠ ch '?' ∧ name.headD (ch '!') ≠ ch '!' := by decide

section Forms

variable {conv : Conv} {a b name : List UInt8} {s : State} {text : List UInt8} {pos : Nat}

theorem parseStep_name {w rest : List UInt8} (hname : name ∈ elementNames)
    (h : text.drop s.pos = w ++ ch '<' :: (name ++ rest)) (hw : ∀ c ∈ w, isBlank c) :
    parseStep conv text s = parseTag conv text s (s.pos + w.length + 1) := by
  obtain ⟨⟨hne, -⟩, -, -, -, -, hhead, hhead'⟩ := elementNames_facts name hname
  cases name with
  | nil => exact absurd rfl hne
  | cons c name => exact parseStep_tag conv h hw hhead hhead'

theorem parseStep_empty {w : List UInt8} (hname : name ∈ elementNames)
    (h : text.drop s.pos = w ++ (emptyForm name ++ b)) (hw : ∀ c ∈ w, isBlank c) :
    parseStep conv text s = nodeTag conv text s ⟨name, name.length + 1, true⟩
      (s.pos + w.length + name.length + 3) := by
  obtain ⟨-, hempty, -, hopen, hclose, -, -⟩ := elementNames_facts name hname
  have htext : text.drop s.pos = w ++ ch '<' :: (name ++ (ch '/' :: ch '>' :: b)) := by
    simp [h, emptyForm]
  have hdrop := drop_succ_of_drop (drop_add_of_drop htext)
  rw [parseStep_name hname htext hw, parseTag, readTag_empty hempty hdrop, ok_bind]
  simp only
  rw [if_neg hopen, if_neg hclose,
    show s.pos + w.length + 1 + name.length + 2 = s.pos + w.length + name.length + 3 by omega]

theorem parseStep_filled {w : List UInt8} (hname : name ∈ elementNames)
    (h : text.drop s.pos = w ++ (filledForm name ++ b)) (hw : ∀ c ∈ w, isBlank c) :
    parseStep conv text s = nodeTag conv text s ⟨name, name.length, false⟩
      (s.pos + w.length + name.length + 2) := by
  obtain ⟨hisName, -, hslash, hopen, hclose, -, -⟩ := elementNames_facts name hname
  have htext : text.drop s.pos =
      w ++ ch '<' :: (name ++ (ch '>' :: ch '<' :: ch '/' :: (name ++ ch '>' :: b))) := by
    simp [h, filledForm]
  have hdrop := drop_succ_of_drop (drop_add_of_drop htext)
  rw [parseStep_name hname htext hw, parseTag, readTag_open hisName hslash hdrop, ok_bind]
  simp only
  rw [if_neg hopen, if_neg hclose,
    show s.pos + w.length + 1 + name.length + 1 = s.pos + w.length + name.length + 2 by omega]

theorem drop_filled : (a ++ (filledForm name ++ b)).drop (a.length + name.length + 2) =
    ch '<' :: ch '/' :: (name ++ ch '>' :: b) := by
  have htext : a ++ (filledForm name ++ b) =
      (a ++ ch '<' :: (name ++ [ch '>'])) ++ ch '<' :: ch '/' :: (name ++ ch '>' :: b) := by
    simp [filledForm]
  rw [htext, show a.length + name.length + 2 = (a ++ ch '<' :: (name ++ [ch '>'])).length by
    simp only [length_append, length_cons, length_nil]; omega, drop_left]

theorem ahead_forms : Ahead (a ++ (emptyForm name ++ b)) (a ++ (filledForm name ++ b))
    (a.length + name.length + 3) (a.length + name.length + 2 + name.length + 3) := by
  have hempty : (a ++ emptyForm name).length = a.length + name.length + 3 := by
    simp only [emptyForm, length_append, length_cons, length_nil]
    omega
  have hfilled : (a ++ filledForm name).length = a.length + name.length + 2 + name.length + 3 := by
    simp only [filledForm, length_append, length_cons, length_nil]
    omega
  rw [← append_assoc, ← append_assoc, ← hempty, ← hfilled]
  refine ⟨?_, ?_, by rw [drop_left, drop_left]⟩
  · exact (prefix_append _ _).length_le
  · exact (prefix_append _ _).length_le

/-! ## Nodes -/

theorem readContent_emptyTag (hname : name ∈ elementNames) (len : Nat) (wantsKey : Bool) :
    readContent conv text ⟨name, len, true⟩ pos wantsKey = .ok (.node (emptyData name) pos false) := by
  simp only [elementNames, mem_cons, not_mem_nil, or_false] at hname
  rcases hname with rfl | rfl | rfl | rfl | rfl | rfl | rfl | rfl | rfl | rfl
  all_goals rfl

theorem getTextParts_none (hname : name ∈ elementNames) (skipWs : Bool)
    (h : text.drop pos = ch '<' :: ch '/' :: (name ++ ch '>' :: b)) :
    getTextParts text name name.length skipWs pos = .ok (some [], pos + name.length + 3) := by
  have hnul : NulFree name := fun c hc => ((elementNames_facts name hname).1.2.2 c hc).2
  have hpos : pos + 0 + 2 + name.length + 1 = pos + name.length + 3 := by omega
  cases skipWs with
  | false =>
    have hparts := getTextParts_plain hnul (fun (c : UInt8) (hc : c ∈ []) => by cases hc) h
    rwa [length_nil, hpos] at hparts
  | true =>
    have hparts := getTextParts_skip (w := []) hnul (fun _ hc => by cases hc)
      (fun (c : UInt8) (hc : c ∈ []) => by cases hc) (fun _ hc => by cases hc) h
    rwa [length_nil, Nat.add_zero, hpos] at hparts

theorem textContent_none {len q : Nat} (emptyTag : XData) {noText : XData}
    {full : TextPart → List UInt8 × Nat → Except Stop XData}
    (h : getTextParts text name len true pos = .ok (some [], q)) :
    textContent text ⟨name, len, false⟩ pos emptyTag noText full = .ok (.node noText q false) := by
  rw [textContent, if_neg (by simp), h, ok_bind]

theorem booleanContent_none {len q : Nat} {boolval : UInt8}
    (h : getTextParts text name len true pos = .ok (some [], q)) :
    booleanContent text ⟨name, len, false⟩ pos boolval =
      .ok (.node (.scalar (.boolean boolval) 1) q false) := by
  rw [booleanContent, if_neg (by simp), h, ok_bind]
  rfl

theorem stringContent_none {len q : Nat} {wantsKey : Bool}
    (h : getTextParts text name len false pos = .ok (some [], q)) :
    stringContent text ⟨name, len, false⟩ pos wantsKey =
      .ok (if name = lit "key" ∧ wantsKey then .key [] q
        else .node (.scalar (.string []) 0) q false) := by
  rw [stringContent, if_neg (by simp), h, ok_bind]
  simp only [copyParts, ok_bind]
  split
  · rfl
  · rfl

variable (conv) in
theorem readContent_filled (hname : name ∈ elementNames)
    (hscalar : ¬ (name = lit "dict" ∨ name = lit "array"))
    (h : text.drop pos = ch '<' :: ch '/' :: (name ++ ch '>' :: b)) (wantsKey : Bool) :
    readContent conv text ⟨name, name.length, false⟩ pos wantsKey =
      .ok (if name = lit "key" ∧ wantsKey then .key [] (pos + name.length + 3)
        else .node (filledData conv name) (pos + name.length + 3) false) := by
  have hblank := getTextParts_none hname true h
  have hkeep := getTextParts_none hname false h
  simp only [elementNames, mem_cons, not_mem_nil, or_false] at hname
  rcases hname with rfl | rfl | rfl | rfl | rfl | rfl | rfl | rfl | rfl | rfl
  · exact absurd (.inl rfl) hscalar
  · exact absurd (.inr rfl) hscalar
  · exact textContent_none (.scalar (.uint 0) 8) hblank
  · exact textContent_none (.scalar (.real 0) 8) hblank
  · exact booleanContent_none hblank
  · exact booleanContent_none hblank
  · exact stringContent_none hkeep
  · exact stringContent_none hkeep
  · exact textContent_none (.scalar (.data []) 0) hblank
  · exact textContent_none (.scalar (.date 0) 8) hblank

/-- The state in which a node is put in its place. -/
def State.past (s : State) (pos : Nat) : State := { s with hasContent := true, pos := pos, err := false }

theorem nodeTag_node {tag : Tag} {q : Nat} {data : XData}
    (h : readContent conv text tag pos (s.keyname.isNone && s.inDict) = .ok (.node data q false)) :
    nodeTag conv text s tag pos = placeNode (s.past q) data tag.isEmpty := by
  have hread : readContent conv text tag pos (({ s with hasContent := true } :
      State).keyname.isNone && ({ s with hasContent := true } : State).inDict) =
      .ok (.node data q false) := h
  rw [nodeTag]
  simp only [hread, ok_bind]
  rfl

theorem nodeTag_key {tag : Tag} {q : Nat} {key : List UInt8}
    (h : readContent conv text tag pos (s.keyname.isNone && s.inDict) = .ok (.key key q)) :
    nodeTag conv text s tag pos =
      .ok (.more { s with hasContent := true, pos := q, keyname := some key }) := by
  have hread : readContent conv text tag pos (({ s with hasContent := true } :
      State).keyname.isNone && ({ s with hasContent := true } : State).inDict) =
      .ok (.key key q) := h
  rw [nodeTag]
  simp only [hread, ok_bind]

theorem placeNode_spec (hs : s.Opened) (data : XData) (isEmpty : Bool) :
    s.plist = none ∧ placeNode s data isEmpty = .ok
        (if data.pathItem.isNone then
          .out { s with nodes := s.nodes ++ [⟨data, none⟩], plist := some s.nodes.length }
        else .more (({ s with
          nodes := s.nodes ++ [⟨data, none⟩]
          plist := some s.nodes.length
          parent := some s.nodes.length } : State).enter data isEmpty s.nodes.length)) ∨
      ∃ r p, s.plist = some r ∧ s.parent = some p ∧ Linked s.nodes r p s.openItems ∧
        (s.keyname = none ∧ s.inDict = true ∧ placeNode s data isEmpty = .ok (s.fail s.pos) ∨
        ¬ (s.keyname = none ∧ s.inDict = true) ∧ ∃ nodes',
          attach s.nodes p s.keyname data = .ok (some nodes') ∧ placeNode s data isEmpty =
            .ok (.more (({ s with nodes := nodes' } : State).enter data isEmpty s.nodes.length))) := by
  obtain ⟨pos, err, nodes, plist, parent, keyname, hasContent, nodePath⟩ := s
  cases plist with
  | none =>
    refine .inl ⟨rfl, ?_⟩
    rw [placeNode]
    simp only
    split
    · rfl
    · rfl
  | some r =>
    obtain ⟨p, hparent, hlinked⟩ : ∃ p, parent = some p ∧
      Linked nodes r p (nodePath.filter (· ≠ .plist)) := hs
    subst hparent
    refine .inr ⟨r, p, rfl, rfl, hlinked, ?_⟩
    obtain ⟨⟨d, up⟩, hnode, hitem⟩ := hlinked.node
    simp only [placeNode, State.inDict, bind_some, hnode]
    rcases attach_container hnode hitem keyname data with ⟨nodes', hattach⟩ |
      ⟨hkey, hdict, hattach⟩
    · refine .inr ⟨?_, nodes', hattach, by rw [hattach, ok_bind]⟩
      rintro ⟨hkey, hdict⟩
      cases d with
      | scalar => cases hdict
      | array => cases hdict
      | dict entries =>
        rw [attach, hnode, hkey] at hattach
        cases hattach
    · refine .inl ⟨hkey, ?_, by rw [hattach, ok_bind]⟩
      cases d with
      | scalar => cases hdict
      | array => cases hdict
      | dict entries => rfl

theorem placeNode_scalar {data : XData} (h : data.pathItem = none) (isEmpty : Bool) :
    placeNode s data isEmpty = placeNode s data true := by
  have henter (t : State) (id : Nat) : t.enter data isEmpty id = t.enter data true id := by
    rw [State.enter, State.enter, h]
  simp only [placeNode, henter]

theorem placeNode_total (hs : s.Opened) (data : XData) (isEmpty : Bool) :
    ∃ next, placeNode s data isEmpty = .ok next := by
  rcases placeNode_spec hs data isEmpty with ⟨-, h⟩ | ⟨_, _, -, -, -, ⟨-, -, h⟩ | ⟨-, _, -, h⟩⟩
  · exact ⟨_, h⟩
  · exact ⟨_, h⟩
  · exact ⟨_, h⟩

theorem placeNode_refused (hs : s.Opened) (hkey : s.keyname = none) (hdict : s.inDict = true)
    (data : XData) (isEmpty : Bool) : placeNode s data isEmpty = .ok (s.fail s.pos) := by
  rcases placeNode_spec hs data isEmpty with ⟨hroot, -⟩ | ⟨_, _, -, -, -, ⟨-, -, h⟩ | ⟨hnot, -⟩⟩
  · rw [State.Opened, hroot] at hs
    rw [State.inDict, hs.1] at hdict
    cases hdict
  · exact h
  · exact absurd ⟨hkey, hdict⟩ hnot

/-! ## The same -/

theorem emptyData_scalar (hscalar : ¬ (name = lit "dict" ∨ name = lit "array")) :
    (emptyData name).pathItem = none := by
  rw [emptyData, if_neg fun h => hscalar (.inl h), if_neg fun h => hscalar (.inr h)]
  repeat' split
  all_goals rfl

theorem filledData_scalar (conv : Conv) (hscalar : ¬ (name = lit "dict" ∨ name = lit "array")) :
    (filledData conv name).pathItem = none := by
  rw [filledData]
  split
  · rfl
  · exact emptyData_scalar hscalar

theorem Comes.drop (hcomes : Comes conv a name s) (rest : List UInt8) :
    (a ++ rest).drop s.pos = a.drop s.pos ++ rest := drop_append_of_le_length hcomes.le

theorem Comes.at_tag (hcomes : Comes conv a name s) : s.pos + (a.drop s.pos).length = a.length := by
  have := hcomes.le
  rw [length_drop]
  omega

theorem Comes.empty (hcomes : Comes conv a name s) :
    Turns conv (a ++ (emptyForm name ++ b)) .init s := by
  have hturns := hcomes.turns (ch '/' :: ch '>' :: b)
  have htext : a ++ (emptyForm name ++ b) = a ++ ch '<' :: (name ++ (ch '/' :: ch '>' :: b)) := by
    simp [emptyForm]
  rwa [htext]

theorem Comes.filled (hcomes : Comes conv a name s) :
    Turns conv (a ++ (filledForm name ++ b)) .init s := by
  have hturns := hcomes.turns (ch '>' :: ch '<' :: ch '/' :: (name ++ ch '>' :: b))
  have htext : a ++ (filledForm name ++ b) =
      a ++ ch '<' :: (name ++ (ch '>' :: ch '<' :: ch '/' :: (name ++ ch '>' :: b))) := by
    simp [filledForm]
  rwa [htext]

theorem Comes.opened (hcomes : Comes conv a name s) : s.Opened :=
  (hcomes.turns []).opened State.Opened.init

theorem Comes.lt_empty (hcomes : Comes conv a name s) :
    s.pos < (a ++ (emptyForm name ++ b)).length := by
  have := hcomes.le
  simp only [emptyForm, length_append, length_cons]
  omega

theorem Comes.lt_filled (hcomes : Comes conv a name s) :
    s.pos < (a ++ (filledForm name ++ b)).length := by
  have := hcomes.le
  simp only [filledForm, length_append, length_cons]
  omega

theorem Comes.tail_empty (hcomes : Comes conv a name s) {t : State}
    (hstep : parseStep conv (a ++ (emptyForm name ++ b)) s = .ok (.more t))
    (hpos : a.length < t.pos) : Turns conv (a ++ (emptyForm name ++ b)) .init t :=
  hcomes.empty.tail ⟨hcomes.lt_empty, Nat.lt_of_le_of_lt hcomes.le hpos, hcomes.err, hstep⟩

theorem Comes.tail_filled (hcomes : Comes conv a name s) {t : State}
    (hstep : parseStep conv (a ++ (filledForm name ++ b)) s = .ok (.more t))
    (hpos : a.length < t.pos) : Turns conv (a ++ (filledForm name ++ b)) .init t :=
  hcomes.filled.tail ⟨hcomes.lt_filled, Nat.lt_of_le_of_lt hcomes.le hpos, hcomes.err, hstep⟩

theorem Comes.step_empty (hcomes : Comes conv a name s) (hname : name ∈ elementNames) :
    parseStep conv (a ++ (emptyForm name ++ b)) s =
      placeNode (s.past (a.length + name.length + 3)) (emptyData name) true := by
  rw [parseStep_empty hname (hcomes.drop _) hcomes.blank, hcomes.at_tag,
    nodeTag_node (readContent_emptyTag hname _ _)]

theorem Comes.step_filled (hcomes : Comes conv a name s) (hname : name ∈ elementNames)
    (hscalar : ¬ (name = lit "dict" ∨ name = lit "array"))
    (hkey : ¬ (name = lit "key" ∧ (s.keyname.isNone && s.inDict) = true)) :
    parseStep conv (a ++ (filledForm name ++ b)) s =
      placeNode (s.past (a.length + name.length + 2 + name.length + 3)) (filledData conv name)
        true := by
  have hread := readContent_filled conv hname hscalar (drop_filled (a := a) (b := b))
    (s.keyname.isNone && s.inDict)
  rw [if_neg hkey] at hread
  rw [parseStep_filled hname (hcomes.drop _) hcomes.blank, hcomes.at_tag, nodeTag_node hread,
    placeNode_scalar (filledData_scalar conv hscalar)]

theorem scalar_same (hcomes : Comes conv a name s) (hname : name ∈ elementNames)
    (hscalar : ¬ (name = lit "dict" ∨ name = lit "array"))
    (hkey : ¬ (name = lit "key" ∧ (s.keyname.isNone && s.inDict) = true))
    (hdata : filledData conv name = emptyData name ∨ s.keyname = none ∧ s.inDict = true) :
    SameParse conv (a ++ (emptyForm name ++ b)) (a ++ (filledForm name ++ b)) := by
  have hopened (q : Nat) : (s.past q).Opened := hcomes.opened.same rfl rfl rfl rfl
  have hstep := hcomes.step_empty (b := b) hname
  have hstep' := hcomes.step_filled (b := b) hname hscalar hkey
  rcases hdata with hdata | ⟨hnone, hdict⟩
  · rw [hdata] at hstep'
    have hsame : (s.past (a.length + name.length + 3)).Same (a ++ (emptyForm name ++ b))
        (a ++ (filledForm name ++ b)) (s.past (a.length + name.length + 2 + name.length + 3)) :=
      ⟨rfl, fun _ => ahead_forms⟩
    obtain ⟨next, hnext⟩ := placeNode_total (hopened _) (emptyData name) true
    obtain ⟨next', hnext', hrel⟩ := (placeNode_same hsame (emptyData name) true).eq_ok hnext
    exact sameParse_next hcomes.empty hcomes.filled hcomes.lt_empty hcomes.lt_filled hcomes.err
      hcomes.err (hstep.trans hnext) (hstep'.trans hnext') hrel
  · rw [placeNode_refused (hopened _) hnone hdict] at hstep hstep'
    exact sameParse_next hcomes.empty hcomes.filled hcomes.lt_empty hcomes.lt_filled hcomes.err
      hcomes.err hstep hstep' rfl

theorem container_facts (conv : Conv) (h : name = lit "dict" ∨ name = lit "array") :
    ∃ item, item ≠ .plist ∧ name = item.type ∧ (emptyData name).pathItem = some item ∧
      ∀ text len pos wantsKey, readContent conv text ⟨name, len, false⟩ pos wantsKey =
        .ok (.node (emptyData name) pos false) := by
  rcases h with rfl | rfl
  · exact ⟨.dict, by decide, rfl, rfl, fun _ _ _ _ => rfl⟩
  · exact ⟨.array, by decide, rfl, rfl, fun _ _ _ _ => rfl⟩

theorem Comes.step_container (hcomes : Comes conv a name s) (hname : name ∈ elementNames)
    (h : name = lit "dict" ∨ name = lit "array") :
    parseStep conv (a ++ (filledForm name ++ b)) s =
      placeNode (s.past (a.length + name.length + 2)) (emptyData name) false := by
  obtain ⟨-, -, -, -, hread⟩ := container_facts conv h
  rw [parseStep_filled hname (hcomes.drop _) hcomes.blank, hcomes.at_tag,
    nodeTag_node (hread _ _ _ _)]

variable (conv) in
theorem step_closing {v : State} {item : PathItem} {path : List PathItem} {p : Nat} {node : XNode}
    (hitem : item ≠ .plist) (hpos : v.pos = a.length + item.type.length + 2)
    (hpath : v.nodePath = item :: path) (hparent : v.parent = some p)
    (hnode : v.nodes[p]? = some node) :
    parseStep conv (a ++ (filledForm item.type ++ b)) v =
      if node.parent.isNone then
        .ok (.out { v with
          pos := v.pos + item.type.length + 3
          hasContent := true
          nodePath := path
          parent := node.parent
          keyname := none })
      else .ok (.more { v with
          pos := v.pos + item.type.length + 3
          hasContent := true
          nodePath := path
          parent := node.parent
          keyname := none }) := by
  have hdrop : (a ++ (filledForm item.type ++ b)).drop v.pos =
      ch '<' :: ch '/' :: (item.type ++ ch '>' :: b) := by
    rw [hpos]
    exact drop_filled
  have hclose := closeNode_type
    (s := { v with hasContent := true, pos := v.pos + item.type.length + 3 }) hpath hparent hnode
  rw [parseStep_closing conv hdrop, if_neg hitem, hclose]

theorem container_same (hcomes : Comes conv a name s) (hname : name ∈ elementNames)
    (h : name = lit "dict" ∨ name = lit "array") (hroot : s.plist.isSome) :
    SameParse conv (a ++ (emptyForm name ++ b)) (a ++ (filledForm name ++ b)) := by
  have hopened (q : Nat) : (s.past q).Opened := hcomes.opened.same rfl rfl rfl rfl
  have hstep := hcomes.step_empty (b := b) hname
  have hstep' := hcomes.step_container (b := b) hname h
  obtain ⟨item, hplist, htype, hitem, -⟩ := container_facts conv h
  rcases placeNode_spec (hopened (a.length + name.length + 3)) (emptyData name) true with
    ⟨hnone, -⟩ | ⟨r, p, hr, hp, hlinked, ⟨hkey, hdict, hplaced⟩ | ⟨hnot, nodes', hattach, hplaced⟩⟩
  · rw [show s.plist = none from hnone] at hroot
    cases hroot
  · rw [hplaced] at hstep
    rw [placeNode_refused (hopened (a.length + name.length + 2)) hkey hdict] at hstep'
    exact sameParse_next hcomes.empty hcomes.filled hcomes.lt_empty hcomes.lt_filled hcomes.err
      hcomes.err hstep hstep' rfl
  · -- the container is put in its place, opened and closed again
    rcases placeNode_spec (hopened (a.length + name.length + 2)) (emptyData name) false with
      ⟨hnone, -⟩ | ⟨r', p', hr', hp', -, ⟨hkey, hdict, -⟩ | ⟨-, nodes'', hattach', hplaced'⟩⟩
    · cases hr.symm.trans hnone
    · exact absurd ⟨hkey, hdict⟩ hnot
    cases hp.symm.trans hp'
    cases hattach.symm.trans hattach'
    obtain ⟨-, hnew, -⟩ := hlinked.taken hattach
    rw [hplaced, State.enter, hitem] at hstep
    rw [hplaced', State.enter, hitem] at hstep'
    simp only [if_true, Bool.false_eq_true, if_false] at hstep hstep'
    have hturns := hcomes.tail_filled hstep' (show a.length < a.length + name.length + 2 by omega)
    have hclose := step_closing conv (a := a) (b := b) (v := { s.past (a.length +
      name.length + 2) with
        nodes := nodes'
        keyname := none
        nodePath := item :: s.nodePath
        parent := some s.nodes.length }) hplist (by rw [htype]; rfl) rfl rfl hnew
    rw [if_neg (by simp), ← htype] at hclose
    refine sameParse_next hcomes.empty hturns hcomes.lt_empty ?_ hcomes.err rfl
      hstep hclose ⟨?_, fun _ => ahead_forms⟩
    · simp only [State.past, filledForm, length_append, length_cons]
      omega
    · obtain ⟨pos, err, nodes, plist, parent, keyname, hasContent, nodePath⟩ := s
      obtain rfl : parent = some p := hp
      rfl

/-! ## Not the same -/

theorem drop_empty : (a ++ (emptyForm name ++ b)).drop (a.length + name.length + 3) = b := by
  have hlen : a.length + name.length + 3 = (a ++ emptyForm name).length := by
    simp only [emptyForm, length_append, length_cons, length_nil]
    omega
  rw [hlen, ← append_assoc, drop_left]

theorem drop_filled_end : (a ++ (filledForm name ++ b)).drop
    (a.length + name.length + 2 + name.length + 3) = b :=
  (ahead_forms (a := a) (b := b)).drop_eq.symm.trans drop_empty

theorem returns_out {t : State} (h : Turns conv text .init s) (hlt : s.pos < text.length)
    (herr : s.err = false) (hstep : parseStep conv text s = .ok (.out t)) :
    Returns conv text t.result :=
  (returns_iff h (length_pos_iff.mp (Nat.zero_lt_of_lt hlt))).mpr
    ⟨1, t, parseLoop_out conv hlt herr hstep 0, rfl⟩

theorem returns_closings {r : Nat} (h : Turns conv text .init s) (hne : text ≠ [])
    (herr : s.err = false) (hcontent : s.hasContent = true) (hroot : s.plist = some r)
    (hdrop : text.drop s.pos = closings s.nodePath) : Returns conv text (s.nodes, some r) := by
  obtain ⟨fuel, t, hrun, herr', hnodes, hplist⟩ := parseLoop_closings conv rfl
    (h.opened State.Opened.init) herr hcontent (by rw [hroot]; rfl) hdrop
  refine (returns_iff h hne).mpr ⟨fuel, t, hrun, ?_⟩
  rw [State.result, herr', hnodes, hplist, hroot]
  rfl

theorem parseStep_open_end (h : text.drop s.pos = [ch '<']) :
    parseStep conv text s = .ok (s.fail (s.pos + 1)) := by
  have hlen := congrArg List.length h
  rw [length_drop, length_singleton] at hlen
  have hblank : span text isBlank s.pos = 0 :=
    span_of_drop (a := []) h (fun _ hc => by cases hc) (by decide)
  rw [parseStep, parseSkipWs_eq, ok_bind, hblank, Nat.add_zero, if_neg (by omega), byteAt_of_drop h,
    ok_bind, if_neg (by simp), if_pos (by omega)]

theorem root_container_differs (hcomes : Comes conv a name s) (hname : name ∈ elementNames)
    (h : name = lit "dict" ∨ name = lit "array") (hroot : s.plist = none) :
    ¬ SameParse conv (a ++ (emptyForm name ++ [ch '<'])) (a ++ (filledForm name ++ [ch '<'])) := by
  intro hsame
  have hopened (q : Nat) : (s.past q).Opened := hcomes.opened.same rfl rfl rfl rfl
  have hstep := hcomes.step_empty (b := [ch '<']) hname
  have hstep' := hcomes.step_container (b := [ch '<']) hname h
  obtain ⟨item, hplist, htype, hitem, -⟩ := container_facts conv h
  -- behind `<dict/>` the parse goes on
  rcases placeNode_spec (hopened (a.length + name.length + 3)) (emptyData name) true with
    ⟨-, hplaced⟩ | ⟨r, _, hr, -⟩
  swap
  · cases hroot.symm.trans hr
  rw [hitem, if_neg (by simp), State.enter, hitem] at hplaced
  have hturns := hcomes.tail_empty (hstep.trans hplaced)
    (show a.length < a.length + name.length + 3 by omega)
  have hlt : a.length + name.length + 3 < (a ++ (emptyForm name ++ [ch '<'])).length := by
    simp only [emptyForm, length_append, length_cons, length_nil]
    omega
  have hout := returns_out hturns hlt rfl (parseStep_open_end drop_empty)
  -- `<dict></dict>` is the document
  rcases placeNode_spec (hopened (a.length + name.length + 2)) (emptyData name) false with
    ⟨-, hplaced'⟩ | ⟨r, _, hr, -⟩
  swap
  · cases hroot.symm.trans hr
  rw [hitem, if_neg (by simp), State.enter, hitem] at hplaced'
  have hturns' := hcomes.tail_filled (hstep'.trans hplaced')
    (show a.length < a.length + name.length + 2 by omega)
  have hlt' : a.length + name.length + 2 < (a ++ (filledForm name ++ [ch '<'])).length := by
    simp only [filledForm, length_append, length_cons, length_nil]
    omega
  have hnew : (s.nodes ++ [⟨emptyData name, none⟩])[s.nodes.length]? =
      some ⟨emptyData name, none⟩ := by simp
  have hclose := step_closing conv (a := a) (b := [ch '<']) (v := { s.past (a.length +
    name.length + 2) with
      nodes := s.nodes ++ [⟨emptyData name, none⟩]
      keyname := none
      plist := some s.nodes.length
      nodePath := item :: s.nodePath
      parent := some s.nodes.length }) hplist (by rw [htype]; rfl) rfl rfl hnew
  rw [if_pos (by simp), ← htype] at hclose
  have hout' := returns_out hturns' hlt' rfl hclose
  exact hsame.result hout hout'

theorem attach_accepts {nodes nodes' : List XNode} {p : Nat} {keyname : Option (List UInt8)}
    {data : XData} (h : attach nodes p keyname data = .ok (some nodes')) :
    ∃ before, nodes' = before ++ [⟨data, some p⟩] ∧ Accepts nodes p keyname before := by
  simp only [attach] at h
  match hnode : nodes[p]?, h with
  | some ⟨.dict entries, up⟩, h =>
    cases keyname with
    | none => cases h
    | some key =>
      cases h
      exact ⟨_, rfl, length_set, fun d => by rw [attach, hnode]⟩
  | some ⟨.array children, up⟩, h =>
    cases h
    exact ⟨_, rfl, length_set, fun d => by rw [attach, hnode]⟩
  | some ⟨.scalar _ _, up⟩, h => cases h

theorem returns_scalar {r q : Nat} {data : XData} (hturns : Turns conv text .init s)
    (hlt : s.pos < text.length) (herr : s.err = false) (hq : s.pos < q)
    (hstep : parseStep conv text s = placeNode (s.past q) data true)
    (hscalar : data.pathItem = none) (hr : s.plist = some r)
    (hnot : ¬ (s.keyname = none ∧ s.inDict = true)) (hdrop : text.drop q = closings s.nodePath) :
    ∃ p before, s.parent = some p ∧ Linked s.nodes r p s.openItems ∧
      Accepts s.nodes p s.keyname before ∧
        Returns conv text (before ++ [⟨data, some p⟩], some r) := by
  have hopened : (s.past q).Opened := (hturns.opened State.Opened.init).same rfl rfl rfl rfl
  rcases placeNode_spec hopened data true with
    ⟨hnone, -⟩ | ⟨r', p, hr', hp, hlinked, ⟨hkey, hdict, -⟩ | ⟨-, nodes', hattach, hplaced⟩⟩
  · cases hr.symm.trans hnone
  · exact absurd ⟨hkey, hdict⟩ hnot
  cases hr.symm.trans hr'
  obtain ⟨before, rfl, haccepts⟩ := attach_accepts hattach
  rw [State.enter, hscalar] at hplaced
  refine ⟨p, before, hp, hlinked, haccepts, ?_⟩
  exact returns_closings (hturns.tail ⟨hlt, hq, herr, hstep.trans hplaced⟩)
    (length_pos_iff.mp (Nat.zero_lt_of_lt hlt)) rfl rfl hr hdrop

/-- **A key that is awaited**: with a value behind it one document is rejected. -/
theorem key_differs (hcomes : Comes conv a (lit "key") s) (hkey : s.keyname = none)
    (hdict : s.inDict = true) :
    ¬ SameParse conv (a ++ (emptyForm (lit "key") ++ (emptyForm (lit "true") ++ closings s.nodePath)))
      (a ++ (filledForm (lit "key") ++ (emptyForm (lit "true") ++ closings s.nodePath))) := by
  intro hsame
  have hname : lit "key" ∈ elementNames := by decide
  have hopened (q : Nat) : (s.past q).Opened := hcomes.opened.same rfl rfl rfl rfl
  have hstep := hcomes.step_empty (b := emptyForm (lit "true") ++ closings s.nodePath) hname
  rw [placeNode_refused (hopened _) hkey hdict] at hstep
  have hout := returns_out hcomes.empty hcomes.lt_empty hcomes.err hstep
  -- the empty key
  have hread := readContent_filled conv hname (by decide)
    (drop_filled (a := a) (b := emptyForm (lit "true") ++ closings s.nodePath))
    (s.keyname.isNone && s.inDict)
  rw [if_pos ⟨rfl, by rw [hkey, hdict]; rfl⟩] at hread
  have hstep' := nodeTag_key hread
  rw [← hcomes.at_tag, ← parseStep_filled hname (hcomes.drop _) hcomes.blank, hcomes.at_tag] at hstep'
  have hturns := hcomes.tail_filled hstep' (show a.length < a.length + (lit "key").length + 2 +
    (lit "key").length + 3 by omega)
  -- its value
  obtain ⟨v, hv⟩ : ∃ v : State, v = { s with
      hasContent := true
      pos := a.length + (lit "key").length + 2 + (lit "key").length + 3
      keyname := some [] } := ⟨_, rfl⟩
  rw [← hv] at hturns
  have hdrop : (a ++ (filledForm (lit "key") ++ (emptyForm (lit "true") ++ closings s.nodePath))).drop
      v.pos = [] ++ (emptyForm (lit "true") ++ closings s.nodePath) := by
    rw [hv]
    exact drop_filled_end
  have hvalue := @parseStep_empty conv _ _ _ _ _ (show lit "true" ∈ elementNames by decide)
    hdrop (fun _ hc => by cases hc)
  rw [nodeTag_node (readContent_emptyTag (by decide) _ _), length_nil, Nat.add_zero] at hvalue
  obtain ⟨r, hr⟩ : ∃ r, v.plist = some r := by
    rw [hv]
    cases hplist : s.plist with
    | some r => exact ⟨r, rfl⟩
    | none =>
      have hroot := hcomes.opened
      rw [State.Opened, hplist] at hroot
      rw [State.inDict, hroot.1] at hdict
      cases hdict
  have hbehind : (a ++ (filledForm (lit "key") ++ (emptyForm (lit "true") ++
      closings s.nodePath))).drop (v.pos + (lit "true").length + 3) = closings v.nodePath := by
    have htrue : (emptyForm (lit "true")).length = (lit "true").length + 3 := rfl
    rw [Nat.add_assoc, ← htrue, ← drop_drop, hdrop, nil_append, drop_left, hv]
  obtain ⟨p, before, -, -, -, hreturns⟩ := returns_scalar hturns
    (lt_length_of_drop (show _ = ch '<' :: _ from hdrop)) (by rw [hv]; exact hcomes.err)
    (by omega) hvalue rfl hr (by rw [hv]; rintro ⟨h, -⟩; cases h) hbehind
  exact hsame.result hout hreturns

theorem not_sameTree {nodes before : List XNode} {r p : Nat} {items : List PathItem}
    {keyname : Option (List UInt8)} {d d' : XData} (hlinked : Linked nodes r p items)
    (haccepts : Accepts nodes p keyname before) (hne : d.shape ≠ d'.shape) :
    ¬ SameTree (before ++ [⟨d, some p⟩]) r (before ++ [⟨d', some p⟩]) r := by
  intro hsame
  obtain ⟨hlen, hattach⟩ := haccepts
  obtain ⟨hlinked', -, hlt, node, hnode, hmem⟩ := hlinked.taken (hattach d)
  obtain ⟨path, hpath⟩ := hlinked'.path
  obtain ⟨i, hi⟩ := mem_iff_getElem?.mp hmem
  rw [List.getElem?_append_left (by omega)] at hnode
  -- the node at the end of the path is the last one, in both trees
  have hend (x : XData) : nodeAt (before ++ [⟨x, some p⟩]) r (path ++ [i]) = some ⟨x, some p⟩ := by
    have hbefore : ∀ j < p, ∀ node : XNode, (before ++ [⟨d, some p⟩])[j]? = some node →
        (before ++ [(⟨x, some p⟩ : XNode)])[j]? = some node := by
      intro j hj y hy
      rw [List.getElem?_append_left (by omega)] at hy ⊢
      exact hy
    rw [hpath _ hbefore, nodeAt, List.getElem?_append_left (by omega), hnode, bind_some, hi,
      bind_some, nodeAt, ← hlen]
    simp
  have hshape := hsame (path ++ [i])
  rw [hend d, hend d'] at hshape
  exact hne (some.inj hshape)

/-- **A date that is taken**: the trees differ. -/
theorem date_differs (hcomes : Comes conv a (lit "date") s)
    (hdate : conv.toDouble (0 - 978307200) ≠ 0) (hnot : ¬ (s.keyname = none ∧ s.inDict = true)) :
    ¬ SameParse conv (a ++ (emptyForm (lit "date") ++ closings s.nodePath))
      (a ++ (filledForm (lit "date") ++ closings s.nodePath)) := by
  intro hsame
  have hname : lit "date" ∈ elementNames := by decide
  have hopened (q : Nat) : (s.past q).Opened := hcomes.opened.same rfl rfl rfl rfl
  have hstep := hcomes.step_empty (b := closings s.nodePath) hname
  have hstep' := hcomes.step_filled (b := closings s.nodePath) hname (by decide)
    (fun h => absurd h.1 (by decide))
  have hshape : (emptyData (lit "date")).shape ≠ (filledData conv (lit "date")).shape := by
    intro h
    injection h with hvalue
    injection hvalue with hzero
    exact hdate hzero.symm
  have hle := hcomes.le
  cases hroot : s.plist with
  | none =>
    rcases placeNode_spec (hopened (a.length + (lit "date").length + 3)) (emptyData (lit "date"))
      true with ⟨-, hplaced⟩ | ⟨r, _, hr, -⟩
    swap
    · cases hroot.symm.trans hr
    rcases placeNode_spec (hopened (a.length + (lit "date").length + 2 + (lit "date").length + 3))
      (filledData conv (lit "date")) true with ⟨-, hplaced'⟩ | ⟨r, _, hr, -⟩
    swap
    · cases hroot.symm.trans hr
    have hout := returns_out hcomes.empty hcomes.lt_empty hcomes.err (hstep.trans hplaced)
    have hout' := returns_out hcomes.filled hcomes.lt_filled hcomes.err (hstep'.trans hplaced')
    have hroots := hsame.result hout hout' []
    refine hshape ?_
    simpa [State.result, State.past, nodeAt] using hroots
  | some r =>
    obtain ⟨p, before, hp, hlinked, haccepts, hreturns⟩ := returns_scalar hcomes.empty
      hcomes.lt_empty hcomes.err (by omega) hstep rfl hroot hnot drop_empty
    obtain ⟨p', before', hp', -, haccepts', hreturns'⟩ := returns_scalar hcomes.filled
      hcomes.lt_filled hcomes.err (by omega) hstep' rfl hroot hnot drop_filled_end
    cases hp.symm.trans hp'
    have htaken := (haccepts.2 (emptyData (lit "date"))).symm.trans
      (haccepts'.2 (emptyData (lit "date")))
    obtain rfl : before = before' :=
      append_cancel_right (some.inj (Except.ok.inj htaken))
    exact not_sameTree hlinked haccepts hshape (hsame.result hreturns hreturns')

/-! ## When the forms agree -/

/-- In the state `s` the two forms of the tag come to the same. -/
def State.FormsAgree (conv : Conv) (s : State) (name : List UInt8) : Prop :=
  (name = lit "dict" ∨ name = lit "array" → s.plist.isSome) ∧
    (name = lit "key" → ¬ (s.keyname = none ∧ s.inDict = true)) ∧
    (name = lit "date" → conv.toDouble (0 - 978307200) = 0 ∨ s.keyname = none ∧ s.inDict = true)

/-- **When `<tag/>` and `<tag></tag>` are the same.**  The parser comes to the tag in the state `s`.
Whatever follows, the two documents give the same result, exactly if the forms agree there. -/
theorem empty_element_iff (hname : name ∈ elementNames) (hcomes : Comes conv a name s) :
    (∀ b, SameParse conv (a ++ (emptyForm name ++ b)) (a ++ (filledForm name ++ b))) ↔
      s.FormsAgree conv name := by
  constructor
  · intro hsame
    refine ⟨fun h => ?_, fun h hkey => ?_, fun h => ?_⟩
    · cases hroot : s.plist with
      | none => exact absurd (hsame _) (root_container_differs hcomes hname h hroot)
      | some r => rfl
    · subst h
      exact key_differs hcomes hkey.1 hkey.2 (hsame _)
    · subst h
      by_contra hnot
      obtain ⟨hdate, hnot⟩ := not_or.mp hnot
      exact date_differs hcomes hdate hnot (hsame _)
  · rintro ⟨hroot, hkey, hdate⟩ b
    by_cases h : name = lit "dict" ∨ name = lit "array"
    · exact container_same hcomes hname h (hroot h)
    · refine scalar_same hcomes hname h (fun hk => hkey hk.1 ?_) ?_
      · simpa using hk.2
      · by_cases hd : name = lit "date"
        · rcases hdate hd with hzero | hrefused
          · left
            rw [filledData, if_pos hd, hzero, hd]
            rfl
          · exact .inr hrefused
        · exact .inl (by rw [filledData, if_neg hd])

/-- A string in an array. -/
theorem empty_element_string :
    (∀ b, SameParse ⟨fun _ => 0, fun _ => 0, fun _ => 0⟩ (lit "<array>" ++ (emptyForm (lit "string") ++ b))
        (lit "<array>" ++ (filledForm (lit "string") ++ b))) ↔
      State.FormsAgree ⟨fun _ => 0, fun _ => 0, fun _ => 0⟩
        ⟨7, false, [⟨.array [], none⟩], some 0, some 0, none, true, [.array]⟩ (lit "string") := by
  refine empty_element_iff (by decide) ⟨fun rest => ?_, by decide, by decide, rfl⟩
  refine .single ⟨by simp [State.init, lit], by decide, rfl, ?_⟩
  have hdrop : (lit "<array>" ++ ch '<' :: (lit "string" ++ rest)).drop State.init.pos =
      [] ++ ch '<' :: ch 'a' :: (lit "rray>" ++ ch '<' :: (lit "string" ++ rest)) := rfl
  have hname : (lit "<array>" ++ ch '<' :: (lit "string" ++ rest)).drop 1 =
      lit "array" ++ ch '>' :: (ch '<' :: (lit "string" ++ rest)) := rfl
  rw [parseStep_tag _ hdrop (fun _ hc => by cases hc) (by decide) (by decide), parseTag]
  rw [show State.init.pos + ([] : List UInt8).length + 1 = 1 from rfl,
    readTag_open (by decide) (by decide) hname]
  rfl

/-- A root that is a dictionary, a key and a date. -/
theorem empty_elements_differ :
    (∀ conv, ¬ SameParse conv (lit "<plist><dict/>") (lit "<plist><dict></dict>")) ∧
    (∀ conv, ¬ SameParse conv (lit "<dict><key/><true/></dict>")
      (lit "<dict><key></key><true/></dict>")) ∧
    ∀ conv : Conv, conv.toDouble (0 - 978307200) ≠ 0 →
      ¬ SameParse conv (lit "<date/>") (lit "<date></date>") := by
  refine ⟨fun conv h => ?_, fun conv h => ?_, fun conv hdate h => ?_⟩
  · have hempty : Returns conv (lit "<plist><dict/>") ([⟨.dict [], none⟩], none) := ⟨15, by rfl⟩
    have hfilled : Returns conv (lit "<plist><dict></dict>") ([⟨.dict [], none⟩], some 0) :=
      ⟨21, by rfl⟩
    exact h.result hempty hfilled
  · have hempty : Returns conv (lit "<dict><key/><true/></dict>") ([⟨.dict [], none⟩], none) :=
      ⟨27, by rfl⟩
    have hfilled : Returns conv (lit "<dict><key></key><true/></dict>")
        ([⟨.dict [([], 1)], none⟩, ⟨.scalar (.boolean 1) 1, some 0⟩], some 0) := ⟨32, by rfl⟩
    exact h.result hempty hfilled
  · have hempty : Returns conv (lit "<date/>") ([⟨.scalar (.date 0) 8, none⟩], some 0) := ⟨8, by rfl⟩
    have hfilled : Returns conv (lit "<date></date>")
        ([⟨.scalar (.date (conv.toDouble (0 - 978307200))) 8, none⟩], some 0) := ⟨14, by rfl⟩
    have hroots := h.result hempty hfilled []
    simp only [nodeAt, List.getElem?_cons_zero, map_some, XData.shape, some.injEq,
      XData.scalar.injEq, Scalar.date.injEq, and_true] at hroots
    exact hdate hroots.symm

end Forms

end IDeviceStack.Libplist.Xplist
