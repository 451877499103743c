/-
# `Libplist.Xplist.Roundtrip` — what is written is read back

The nodes that `node_from_xml` makes of a written tree are the nodes of that tree in
the order in which they are written (`subtree`).  A turn of the loop reads one tag; the
tags of a node and of all that is below it are a run, at the end of which the nodes of
the tree have been added to those that were there, and the container that was open
before is open again.
-/
import IDeviceStack.Libplist.Xplist.Reread
import Mathlib.Logic.Relation

namespace IDeviceStack.Libplist.Xplist

open Relation List

/-! ## Trees that are written and read -/

/-- A scalar as the library makes it, of a type that has a text in XML that says it all. -/
def XmlScalar : Scalar → Nat → Prop
  | .boolean boolval, length => (boolval = 0 ∨ boolval = 1) ∧ length = 1
  | .uint intval, length => length = if intval.toNat < 2 ^ 63 then 8 else 16
  | .string strval, length => NulFree strval ∧ length = strval.length
  | .data buff, length => length = buff.length
  | _, _ => False

/-- The key of a pair in a dictionary. -/
def XmlKey : Plist → Prop
  | .scalar (.key strval) length => NulFree strval ∧ length = strval.length
  | _ => False

/-- The keys of a dictionary, by its children. -/
def keysOf : List Plist → List (List UInt8)
  | .scalar (.key strval) _ :: _ :: children => strval :: keysOf children
  | _ => []

mutual

/-- A tree of such scalars; the children of a dictionary are pairs, and no key is there twice. -/
def XmlTree : Plist → Prop
  | .scalar value length => XmlScalar value length
  | .array children => XmlElements children
  | .dict children => XmlPairs children ∧ (keysOf children).Nodup

def XmlElements : List Plist → Prop
  | [] => True
  | child :: children => XmlTree child ∧ XmlElements children

def XmlPairs : List Plist → Prop
  | [] => True
  | [_] => False
  | key :: value :: children => XmlKey key ∧ XmlTree value ∧ XmlPairs children

end

mutual

/-- Every blob in the tree is shorter than `n`. -/
def BlobsBelow (n : Nat) : Plist → Prop
  | .scalar (.data buff) _ => buff.length < n
  | .scalar _ _ => True
  | .array children => AllBlobsBelow n children
  | .dict children => AllBlobsBelow n children

def AllBlobsBelow (n : Nat) : List Plist → Prop
  | [] => True
  | child :: children => BlobsBelow n child ∧ AllBlobsBelow n children

end

/-! ## The nodes of a tree -/

mutual

/-- How many nodes the reader makes of a tree; for the keys of a dictionary it makes none. -/
def size : Plist → Nat
  | .scalar (.key _) _ => 0
  | .scalar _ _ => 1
  | .array children => sizes children + 1
  | .dict children => sizes children + 1

def sizes : List Plist → Nat
  | [] => 0
  | child :: children => size child + sizes children

end

/-- Where the children of an array are, the first one at `base`. -/
def childIds : Nat → List Plist → List Nat
  | _, [] => []
  | base, child :: children => base :: childIds (base + size child) children

/-- The entries of a dictionary, with the first value at `base`. -/
def entries : Nat → List Plist → List (List UInt8 × Nat)
  | base, .scalar (.key strval) _ :: value :: children =>
    (strval, base) :: entries (base + size value) children
  | _, _ => []

mutual

/-- The nodes of a tree whose root is at `base`. -/
def subtree (base : Nat) (parent : Option Nat) : Plist → List XNode
  | .scalar (.key _) _ => []
  | .scalar value length => [⟨.scalar value length, parent⟩]
  | .array children =>
    ⟨.array (childIds (base + 1) children), parent⟩ :: forest (base + 1) base children
  | .dict children =>
    ⟨.dict (entries (base + 1) children), parent⟩ :: forest (base + 1) base children

/-- The nodes below a container at `parent`. -/
def forest (base parent : Nat) : List Plist → List XNode
  | [] => []
  | child :: children =>
    subtree base (some parent) child ++ forest (base + size child) parent children

end

/-- The tree that is at a node; its height is bounded by `fuel`. -/
def treeAt (nodes : List XNode) : Nat → Nat → Option Plist
  | 0, _ => none
  | fuel + 1, id =>
    match nodes[id]? with
    | none => none
    | some ⟨.scalar value length, _⟩ => some (.scalar value length)
    | some ⟨.array children, _⟩ => (children.mapM (treeAt nodes fuel)).map .array
    | some ⟨.dict entries, _⟩ =>
      (entries.mapM fun e => (treeAt nodes fuel e.2).map fun value =>
        [.scalar (.key e.1) e.1.length, value]).map fun pairs => .dict pairs.flatten

/-! ## Sizes -/

mutual

theorem subtree_length (base : Nat) (parent : Option Nat) :
    ∀ t : Plist, (subtree base parent t).length = size t
  | .scalar value length => by cases value <;> rfl
  | .array children => by
    rw [subtree, length_cons, forest_length, size]
  | .dict children => by
    rw [subtree, length_cons, forest_length, size]

theorem forest_length (base parent : Nat) :
    ∀ ts : List Plist, (forest base parent ts).length = sizes ts
  | [] => rfl
  | child :: children => by
    rw [forest, length_append, subtree_length, forest_length, sizes]

end

theorem forest_append (base parent : Nat) (ts us : List Plist) :
    forest base parent (ts ++ us) =
      forest base parent ts ++ forest (base + sizes ts) parent us := by
  induction ts generalizing base with
  | nil => simp [forest, sizes]
  | cons t ts ih =>
    rw [cons_append, forest, forest, ih, append_assoc, sizes, Nat.add_assoc]

theorem childIds_append (base : Nat) (ts us : List Plist) :
    childIds base (ts ++ us) = childIds base ts ++ childIds (base + sizes ts) us := by
  induction ts generalizing base with
  | nil => simp [childIds, sizes]
  | cons t ts ih =>
    rw [cons_append, childIds, childIds, ih, cons_append, sizes, Nat.add_assoc]

theorem XmlKey.eq {t : Plist} (h : XmlKey t) :
    ∃ key, t = .scalar (.key key) key.length ∧ NulFree key := by
  match t, h with
  | .scalar (.key key) length, h =>
    obtain ⟨hfree, rfl⟩ := h
    exact ⟨key, rfl, hfree⟩

variable {ts : List Plist}

theorem XmlPairs.cases (h : XmlPairs ts) :
    ts = [] ∨ ∃ key value rest, ts = .scalar (.key key) key.length :: value :: rest ∧ NulFree key ∧
      XmlTree value ∧ XmlPairs rest := by
  match ts with
  | [] => exact .inl rfl
  | [t] => simp [XmlPairs] at h
  | t :: value :: rest =>
    rw [XmlPairs] at h
    obtain ⟨hkey, hvalue, hrest⟩ := h
    obtain ⟨key, rfl, hfree⟩ := hkey.eq
    exact .inr ⟨key, value, rest, rfl, hfree, hvalue, hrest⟩

theorem XmlPairs.append {us : List Plist} (hts : XmlPairs ts) (hus : XmlPairs us) :
    XmlPairs (ts ++ us) := by
  obtain ⟨n, hn⟩ : ∃ n, ts.length ≤ n := ⟨_, Nat.le_refl _⟩
  induction n generalizing ts with
  | zero =>
    obtain rfl := eq_nil_of_length_eq_zero (Nat.le_zero.mp hn)
    exact hus
  | succ n ih =>
    rcases hts.cases with rfl | ⟨key, value, rest, rfl, hkey, hvalue, hrest⟩
    · exact hus
    · rw [length_cons, length_cons] at hn
      rw [cons_append, cons_append, XmlPairs]
      exact ⟨⟨hkey, rfl⟩, hvalue, ih hrest (by omega)⟩

theorem entries_append (base : Nat) (hts : XmlPairs ts) (us : List Plist) :
    entries base (ts ++ us) = entries base ts ++ entries (base + sizes ts) us ∧
      keysOf (ts ++ us) = keysOf ts ++ keysOf us := by
  obtain ⟨n, hn⟩ : ∃ n, ts.length ≤ n := ⟨_, Nat.le_refl _⟩
  induction n generalizing base ts with
  | zero =>
    obtain rfl := eq_nil_of_length_eq_zero (Nat.le_zero.mp hn)
    simp [entries, keysOf, sizes]
  | succ n ih =>
    rcases hts.cases with rfl | ⟨key, value, rest, rfl, -, -, hrest⟩
    · simp [entries, keysOf, sizes]
    · rw [length_cons, length_cons] at hn
      obtain ⟨hentries, hkeys⟩ := ih (base + size value) hrest (by omega)
      have hsize : base + size value + sizes rest =
          base + sizes (.scalar (.key key) key.length :: value :: rest) := by
        rw [sizes, sizes, size]
        omega
      rw [cons_append, cons_append, entries, entries, hentries, hsize, keysOf, keysOf, hkeys]
      exact ⟨rfl, rfl⟩

theorem entries_map_fst (base : Nat) (ts : List Plist) : (entries base ts).map Prod.fst = keysOf ts := by
  induction base, ts using entries.induct with
  | case1 base key length value rest ih => rw [entries, keysOf, map_cons, ih]
  | case2 base ts hts =>
    rw [entries, keysOf]
    · rfl
    · exact hts
    · exact hts

theorem setEntry_new {α : Type} {m : List (List UInt8 × α)} {key : List UInt8}
    (h : key ∉ m.map Prod.fst) (item : α) : setEntry m key item = m ++ [(key, item)] := by
  induction m with
  | nil => rfl
  | cons e m ih =>
    rw [map_cons, mem_cons, not_or] at h
    rw [setEntry, if_neg (fun he => h.1 he.symm), ih h.2, cons_append]

/-! ## Runs -/

/-- A turn after which there is another one. -/
def Turn (conv : Conv) (text : List UInt8) (s s' : State) : Prop :=
  s.pos < text.length ∧ s.pos < s'.pos ∧ s.err = false ∧ parseStep conv text s = .ok (.more s')

abbrev Turns (conv : Conv) (text : List UInt8) := ReflTransGen (Turn conv text)

section

variable {conv : Conv} {text : List UInt8}

theorem parseLoop_turns {s s' : State} {r : State} (h : Turns conv text s s')
    (hloop : ∀ fuel > text.length - s'.pos, parseLoop conv text fuel s' = .ok r) :
    ∀ fuel > text.length - s.pos, parseLoop conv text fuel s = .ok r := by
  induction h using ReflTransGen.head_induction_on with
  | refl => exact hloop
  | head hturn _ ih =>
    intro fuel hfuel
    obtain ⟨hlt, hpos, herr, hstep⟩ := hturn
    obtain ⟨fuel, rfl⟩ := Nat.exists_eq_succ_of_ne_zero (n := fuel) (by omega)
    rw [parseLoop, if_pos ⟨hlt, herr⟩, hstep, ok_bind]
    exact ih fuel (by omega)

/-- A state of the loop with a container open. -/
def State.inside (pos : Nat) (nodes : List XNode) (parent : Nat) (keyname : Option (List UInt8))
    (path : List PathItem) : State :=
  ⟨pos, false, nodes, some 0, some parent, keyname, true, path⟩

/-- The container at `p` takes a node, and its other nodes are `nodes'` then. -/
def Accepts (nodes : List XNode) (p : Nat) (keyname : Option (List UInt8)) (nodes' : List XNode) :
    Prop :=
  nodes'.length = nodes.length ∧
    ∀ data, attach nodes p keyname data = .ok (some (nodes' ++ [⟨data, some p⟩]))

variable {data : XData} {q : Nat}

theorem parseTag_node {tag : Tag} {nodes nodes' : List XNode} {p pos pos' at' : Nat}
    {keyname : Option (List UInt8)} {path : List PathItem}
    (htag : readTag text at' = .ok (some (tag, q))) (hopen : tag.name ≠ lit "plist")
    (hclose : tag.name ≠ lit "/plist")
    (hcontent : ∀ wantsKey, readContent conv text tag q wantsKey = .ok (.node data pos' false))
    (haccept : Accepts nodes p keyname nodes') :
    parseTag conv text (.inside pos nodes p keyname path) at' =
      .ok (.more ((State.inside pos' (nodes' ++ [⟨data, some p⟩]) p keyname path).enter data
        tag.isEmpty nodes.length)) := by
  rw [parseTag, htag, ok_bind]
  simp only
  rw [if_neg hopen, if_neg hclose, nodeTag]
  simp only [hcontent, ok_bind]
  rw [placeNode]
  simp only [State.inside, haccept.2 data, ok_bind]

/-! ## Scalars -/

/-- `piece` is a tag with all that belongs to it, which the reader takes for a node with `data`. -/
def ReadsAs (conv : Conv) (piece : List UInt8) (data : XData) : Prop :=
  ∃ c b, piece = ch '<' :: c :: b ∧ c ≠ ch '?' ∧ c ≠ ch '!' ∧
    ∀ (text : List UInt8) (pos : Nat) (rest : List UInt8), text.drop pos = c :: b ++ rest →
      ∃ tag q, readTag text pos = .ok (some (tag, q)) ∧ tag.name ≠ lit "plist" ∧
        tag.name ≠ lit "/plist" ∧ (data.pathItem.isSome → tag.isEmpty = false) ∧
        ∀ wantsKey, readContent conv text tag q wantsKey =
          .ok (.node data (pos + (c :: b).length) false)

theorem readsAs_boolean (conv : Conv) (pconv : PrintConv) (depth : Nat) {boolval : UInt8}
    (h : boolval = 0 ∨ boolval = 1) :
    ReadsAs conv (scalarToXml pconv depth 1 (.boolean boolval)) (.scalar (.boolean boolval) 1) := by
  rcases h with rfl | rfl
  · refine ⟨ch 'f', lit "alse/>", rfl, by decide, by decide, fun text pos rest h => ?_⟩
    refine ⟨_, _, readTag_empty (show IsName (lit "false" ++ [ch '/']) by decide) h, by decide,
      by decide, (fun h => by cases h), ?_⟩
    intro wantsKey
    rw [readContent, if_neg (by decide), if_neg (by decide), if_neg (by decide),
      if_neg (by decide), if_neg (by decide), if_pos rfl]
    rfl
  · refine ⟨ch 't', lit "rue/>", rfl, by decide, by decide, fun text pos rest h => ?_⟩
    refine ⟨_, _, readTag_empty (show IsName (lit "true" ++ [ch '/']) by decide) h, by decide,
      by decide, (fun h => by cases h), ?_⟩
    intro wantsKey
    rw [readContent, if_neg (by decide), if_neg (by decide), if_neg (by decide),
      if_neg (by decide), if_pos rfl]
    rfl

theorem readsAs_text (conv : Conv) (name : String) {body : List UInt8} {data : XData}
    {c : UInt8} {b : List UInt8} (hname : lit name = c :: b) (hc : c ≠ ch '?') (hc' : c ≠ ch '!')
    (hisName : IsName (lit name)) (hslash : (lit name).getLast? ≠ some (ch '/'))
    (hopen : lit name ≠ lit "plist") (hclose : lit name ≠ lit "/plist")
    (hbody : ∀ (text : List UInt8) (pos : Nat) (rest : List UInt8),
      text.drop pos = body ++ (closeTag name ++ rest) →
      ∀ wantsKey, readContent conv text ⟨lit name, (lit name).length, false⟩ pos wantsKey =
        .ok (.node data (pos + body.length + (closeTag name).length) false)) :
    ReadsAs conv (openTag name ++ body ++ closeTag name) data := by
  refine ⟨c, b ++ [ch '>'] ++ body ++ closeTag name, by rw [openTag, hname]; simp, hc, hc', ?_⟩
  intro text pos rest h
  have htext : text.drop pos = lit name ++ ch '>' :: (body ++ (closeTag name ++ rest)) := by
    rw [h, hname]
    simp
  refine ⟨_, _, readTag_open hisName hslash htext, hopen, hclose, fun _ => rfl, fun wantsKey => ?_⟩
  have hcontent := hbody text (pos + (lit name).length + 1) rest
    (drop_succ_of_drop (drop_add_of_drop htext)) wantsKey
  rw [hcontent]
  have hlen : pos + (lit name).length + 1 + body.length + (closeTag name).length =
      pos + (c :: (b ++ [ch '>'] ++ body ++ closeTag name)).length := by
    rw [hname]
    simp only [length_cons, length_append, length_nil]
    omega
  rw [hlen]

/-- **Every scalar is read as it was written.** -/
theorem readsAs_scalar (conv : Conv) (pconv : PrintConv) (depth : Nat) {value : Scalar}
    {length : Nat} (hok : XmlScalar value length)
    (hblob : BlobsBelow (2 ^ 31) (.scalar value length)) :
    ReadsAs conv (scalarToXml pconv depth length value) (.scalar value length) := by
  cases value with
  | boolean boolval =>
    obtain ⟨hval, rfl⟩ := hok
    exact readsAs_boolean conv pconv depth hval
  | uint intval =>
    have hlength : length = if intval.toNat < 2 ^ 63 then 8 else 16 := hok
    rw [hlength]
    exact readsAs_text conv "integer" rfl (by decide) (by decide) (by decide)
      (by decide) (by decide) (by decide)
      fun text pos rest h wantsKey => readContent_integer conv h wantsKey
  | string strval =>
    obtain ⟨hfree, rfl⟩ := hok
    rw [scalarToXml, take_length]
    exact readsAs_text conv "string" rfl (by decide) (by decide) (by decide)
      (by decide) (by decide) (by decide)
      fun text pos rest h wantsKey => readContent_string conv hfree h wantsKey
  | data buff =>
    obtain rfl : length = buff.length := hok
    have hblob : buff.length < 2 ^ 31 := by simpa [BlobsBelow] using hblob
    have hpiece : scalarToXml pconv depth buff.length (.data buff) =
        openTag "data" ++ ([10] ++ dataLines depth buff.length buff ++ tabs depth) ++
          closeTag "data" := by
      rw [scalarToXml, take_length]
      simp
    rw [hpiece]
    exact readsAs_text conv "data" rfl (by decide) (by decide) (by decide)
      (by decide) (by decide) (by decide)
      fun text pos rest h wantsKey => readContent_data conv depth hblob h wantsKey
  | real _ => exact hok.elim
  | date _ => exact hok.elim
  | key _ => exact hok.elim
  | uid _ => exact hok.elim

/-! ## Turns -/

theorem readsAs_array (conv : Conv) : ReadsAs conv (openTag "array") (.array []) := by
  refine ⟨ch 'a', lit "rray>", rfl, by decide, by decide, fun text pos rest h => ?_⟩
  refine ⟨_, _, readTag_open (show IsName (lit "array") by decide) (by decide) h, by decide, by decide,
    fun _ => rfl, fun wantsKey => ?_⟩
  rw [readContent, if_neg (by decide), if_pos rfl]
  rfl

theorem readsAs_dict (conv : Conv) : ReadsAs conv (openTag "dict") (.dict []) := by
  refine ⟨ch 'd', lit "ict>", rfl, by decide, by decide, fun text pos rest h => ?_⟩
  refine ⟨_, _, readTag_open (show IsName (lit "dict") by decide) (by decide) h, by decide, by decide,
    fun _ => rfl, fun wantsKey => ?_⟩
  rw [readContent, if_pos rfl]
  rfl

variable {pconv : PrintConv} {nodes nodes' : List XNode} {p pos : Nat} {keyname : Option (List UInt8)}
  {path : List PathItem} {w piece rest : List UInt8}

theorem turn_node (path : List PathItem) (hread : ReadsAs conv piece data)
    (haccept : Accepts nodes p keyname nodes') (hw : ∀ c ∈ w, isBlank c)
    (h : text.drop pos = w ++ (piece ++ rest)) :
    Turn conv text (.inside pos nodes p keyname path)
      (.inside (pos + w.length + piece.length) (nodes' ++ [⟨data, some p⟩])
        (if data.pathItem.isSome then nodes.length else p) none (data.pathItem.toList ++ path)) := by
  obtain ⟨c, b, rfl, hc, hc', hread⟩ := hread
  have hopen := drop_add_of_drop h
  have hlt := lt_length_of_drop hopen
  obtain ⟨tag, q, htag, hplist, hplist', hfilled, hcontent⟩ :=
    hread text (pos + w.length + 1) rest (drop_succ_of_drop hopen)
  have hpos : (State.inside pos nodes p keyname path).pos = pos := rfl
  have hpos' : pos + w.length + 1 + (c :: b).length = pos + w.length + (ch '<' :: c :: b).length := by
    simp only [length_cons]
    omega
  refine ⟨by rw [hpos]; omega, ?_, rfl, ?_⟩
  · show pos < pos + w.length + (ch '<' :: c :: b).length
    simp only [length_cons]
    omega
  · rw [parseStep_tag conv h hw hc hc', hpos,
      parseTag_node htag hplist hplist' hcontent haccept, hpos', State.enter]
    cases hitem : data.pathItem with
    | none => rfl
    | some item =>
      simp only
      rw [hfilled (by rw [hitem]; rfl), if_neg (by simp)]
      rfl

variable {name : String}

theorem readContent_close (conv : Conv) (text : List UInt8) (hname : name = "dict" ∨ name = "array")
    (q : Nat) (wantsKey : Bool) :
    readContent conv text ⟨ch '/' :: lit name, (ch '/' :: lit name).length, false⟩ q wantsKey =
      .ok (.close q) := by
  rcases hname with rfl | rfl
  all_goals
    rw [readContent, if_neg (by decide), if_neg (by decide), if_neg (by decide), if_neg (by decide),
      if_neg (by decide), if_neg (by decide), if_neg (by decide), if_neg (by decide),
      if_neg (by decide), if_pos (by decide)]

variable {item : PathItem} {node : XNode}

theorem parseStep_close (conv : Conv) (keyname : Option (List UInt8)) (path : List PathItem)
    (hitem : item = .dict ∧ name = "dict" ∨ item = .array ∧ name = "array")
    (hnode : nodes[q]? = some node) (hw : ∀ c ∈ w, isBlank c)
    (h : text.drop pos = w ++ (closeTag name ++ rest)) :
    parseStep conv text (.inside pos nodes q keyname (item :: path)) =
      .ok (if node.parent.isNone then
          .out ⟨pos + w.length + (closeTag name).length, false, nodes, some 0, node.parent, none,
            true, path⟩
        else
          .more ⟨pos + w.length + (closeTag name).length, false, nodes, some 0, node.parent, none,
            true, path⟩) := by
  have hopen := drop_add_of_drop h
  have hpos : (State.inside pos nodes q keyname (item :: path)).pos = pos := rfl
  have hname : text.drop (pos + w.length + 1) = (ch '/' :: lit name) ++ ch '>' :: rest := by
    rw [drop_succ_of_drop hopen]
    simp
  have hfacts : IsName (ch '/' :: lit name) ∧
      (ch '/' :: lit name).getLast? ≠ some (ch '/') ∧ ch '/' :: lit name ≠ lit "plist" ∧
      ch '/' :: lit name ≠ lit "/plist" ∧ item.type = lit name := by
    rcases hitem with ⟨rfl, rfl⟩ | ⟨rfl, rfl⟩
    · decide
    · decide
  obtain ⟨hisName, hslash, hplist, hplist', htype⟩ := hfacts
  rw [parseStep_tag (c := ch '/') (b := lit name ++ ch '>' :: rest) conv
    (by rw [hpos, h]; simp [closeTag]) hw (by decide) (by decide), hpos, parseTag,
    readTag_open hisName hslash hname, ok_bind]
  simp only
  rw [if_neg hplist, if_neg hplist', nodeTag]
  simp only [readContent_close conv text (hitem.imp And.right And.right), ok_bind]
  rw [closeNode]
  simp only [State.inside, tail_cons, htype, ne_eq, not_true_eq_false, if_false,
    Option.bind_some, hnode]
  have hlen : pos + w.length + 1 + (ch '/' :: lit name).length + 1 =
      pos + w.length + (closeTag name).length := by
    simp only [closeTag, length_cons, length_append, length_nil]
    omega
  rw [hlen]
  split <;> rfl

theorem turn_close (conv : Conv) (keyname : Option (List UInt8)) (path : List PathItem)
    (hitem : item = .dict ∧ name = "dict" ∨ item = .array ∧ name = "array")
    (hnode : nodes[q]? = some node) (hparent : node.parent = some p) (hw : ∀ c ∈ w, isBlank c)
    (h : text.drop pos = w ++ (closeTag name ++ rest)) :
    Turn conv text (.inside pos nodes q keyname (item :: path))
      (.inside (pos + w.length + (closeTag name).length) nodes p none path) := by
  have hlt := lt_length_of_drop (drop_add_of_drop h)
  have hpos : (State.inside pos nodes q keyname (item :: path)).pos = pos := rfl
  refine ⟨by rw [hpos]; omega, ?_, rfl, ?_⟩
  · show pos < pos + w.length + (closeTag name).length
    simp only [closeTag, length_cons]
    omega
  · rw [parseStep_close conv keyname path hitem hnode hw h, hparent]
    rfl

theorem turn_key (conv : Conv) (path : List PathItem) {entries : List (List UInt8 × Nat)}
    {up : Option Nat} {key : List UInt8}
    (hkey : NulFree key) (hnode : nodes[p]? = some ⟨.dict entries, up⟩) (hw : ∀ c ∈ w, isBlank c)
    (h : text.drop pos = w ++ (openTag "key" ++ escape key ++ closeTag "key" ++ rest)) :
    Turn conv text (.inside pos nodes p none path)
      (.inside (pos + w.length + (openTag "key" ++ escape key ++ closeTag "key").length) nodes p
        (some key) path) := by
  have htext : text.drop pos = w ++ ch '<' :: (lit "key" ++ ch '>' ::
      (escape key ++ (closeTag "key" ++ rest))) := by
    rw [h]
    simp [openTag]
  have hopen := drop_add_of_drop htext
  have hlt := lt_length_of_drop hopen
  have hname := drop_succ_of_drop hopen
  have hbody := drop_succ_of_drop (drop_add_of_drop hname)
  have hpos : (State.inside pos nodes p none path).pos = pos := rfl
  refine ⟨by rw [hpos]; omega, ?_, rfl, ?_⟩
  · show pos < pos + w.length + (openTag "key" ++ escape key ++ closeTag "key").length
    simp only [openTag, length_append, length_cons]
    omega
  · have hwants : (({ State.inside pos nodes p none path with hasContent := true } :
        State).keyname.isNone &&
        ({ State.inside pos nodes p none path with hasContent := true } : State).inDict) = true := by
      simp only [State.inside, State.inDict, Option.bind_some, hnode]
      rfl
    rw [parseStep_tag (c := ch 'k') (b := lit "ey" ++ ch '>' ::
      (escape key ++ (closeTag "key" ++ rest))) conv htext hw (by decide) (by decide), hpos, parseTag,
      readTag_open (by decide) (by decide) hname, ok_bind]
    simp only
    rw [if_neg (by decide), if_neg (by decide), nodeTag]
    simp only [hwants]
    have hcontent := readContent_key conv hkey hbody
    have hlen : (lit "key").length = 3 := rfl
    rw [hlen] at hcontent ⊢
    simp only [hcontent, ok_bind]
    have hend : pos + w.length + 1 + 3 + 1 + (escape key).length + (closeTag "key").length =
        pos + w.length + (openTag "key" ++ escape key ++ closeTag "key").length := by
      simp only [openTag, length_append, length_cons, length_nil, hlen]
      omega
    rw [hend]
    rfl

/-! ## The run over a tree -/

theorem accepts_array (A : List XNode) (up : Option Nat) (done : List Plist) (t : Plist)
    (keyname : Option (List UInt8)) :
    ∃ nodes', Accepts (A ++ subtree A.length up (.array done)) A.length keyname nodes' ∧
      nodes' ++ subtree (A ++ subtree A.length up (.array done)).length (some A.length) t =
        A ++ subtree A.length up (.array (done ++ [t])) := by
  have hlen : (A ++ subtree A.length up (.array done)).length = A.length + 1 + sizes done := by
    rw [length_append, subtree_length, size]
    omega
  refine ⟨A ++ ⟨.array (childIds (A.length + 1) done ++ [A.length + 1 + sizes done]), up⟩ ::
    forest (A.length + 1) A.length done, ⟨?_, fun data => ?_⟩, ?_⟩
  · rw [hlen, length_append, length_cons, forest_length]
    omega
  · rw [attach, hlen]
    simp [subtree]
  · rw [hlen, subtree, childIds_append, forest_append]
    simp [childIds, forest]

theorem accepts_dict (A : List XNode) (up : Option Nat) {done : List Plist} {key : List UInt8}
    (length : Nat) (t : Plist) (hdone : XmlPairs done) (hfree : NulFree key)
    (hnew : key ∉ keysOf done) :
    ∃ nodes', Accepts (A ++ subtree A.length up (.dict done)) A.length (some key) nodes' ∧
      nodes' ++ subtree (A ++ subtree A.length up (.dict done)).length (some A.length) t =
        A ++ subtree A.length up (.dict (done ++ [.scalar (.key key) length, t])) := by
  have hlen : (A ++ subtree A.length up (.dict done)).length = A.length + 1 + sizes done := by
    rw [length_append, subtree_length, size]
    omega
  refine ⟨A ++ ⟨.dict (entries (A.length + 1) done ++ [(key, A.length + 1 + sizes done)]), up⟩ ::
    forest (A.length + 1) A.length done, ⟨?_, fun data => ?_⟩, ?_⟩
  · rw [hlen, length_append, length_cons, forest_length]
    omega
  · have hkeys : key ∉ (entries (A.length + 1) done).map Prod.fst := by
      rw [entries_map_fst]
      exact hnew
    have hset := setEntry_new hkeys (A.length + 1 + sizes done)
    rw [attach, hlen]
    simp [subtree, cstr_of_nulFree hfree, hset]
  · rw [hlen, subtree, (entries_append _ hdone _).1, forest_append]
    simp [entries, forest, subtree, size]

/-- The state after a node and all that is below it. -/
def Reads (conv : Conv) (pconv : PrintConv) (text : List UInt8) (depth : Nat) (t : Plist) : Prop :=
  ∀ (pos : Nat) (nodes nodes' : List XNode) (p : Nat) (keyname : Option (List UInt8))
    (path : List PathItem) (w rest : List UInt8), Accepts nodes p keyname nodes' →
    (∀ c ∈ w, isBlank c) → text.drop pos = w ++ (nodeToXml pconv depth t ++ rest) →
    ∃ pos', Turns conv text (.inside pos nodes p keyname path)
        (.inside pos' (nodes' ++ subtree nodes.length (some p) t) p none path) ∧
      text.drop pos' = [10] ++ rest

theorem blank_tabs (hw : ∀ c ∈ w, isBlank c) (n : Nat) : ∀ c ∈ w ++ tabs n, isBlank c := by
  intro c hc
  rcases mem_append.mp hc with hc | hc
  · exact hw c hc
  · rw [tabs_blank n c hc]
    decide

theorem reads_scalar (conv : Conv) (pconv : PrintConv) (text : List UInt8) (depth : Nat)
    {value : Scalar} {length : Nat} (hok : XmlScalar value length)
    (hblob : BlobsBelow (2 ^ 31) (.scalar value length)) :
    Reads conv pconv text depth (.scalar value length) := by
  intro pos nodes nodes' p keyname path w rest haccept hw h
  rw [nodeToXml] at h
  have htext : text.drop pos = (w ++ tabs depth) ++ (scalarToXml pconv depth length value ++
      ([10] ++ rest)) := by
    rw [h]
    simp
  have hturn := turn_node path (readsAs_scalar conv pconv depth hok hblob) haccept
    (blank_tabs hw depth) htext
  have htree : subtree nodes.length (some p) (.scalar value length) =
      [⟨.scalar value length, some p⟩] := by
    cases value with
    | key _ => exact hok.elim
    | _ => rfl
  rw [htree]
  exact ⟨_, .single hturn, drop_add_of_drop (by rw [← drop_add_of_drop htext])⟩

/-- With a container open whose children so far make it `t`, the run over more children makes it
`t'`. -/
def ReadsChildren (conv : Conv) (pconv : PrintConv) (text : List UInt8) (depth : Nat)
    (t : Plist) (children : List Plist) (t' : Plist) : Prop :=
  ∀ (pos : Nat) (A : List XNode) (up : Option Nat) (path : List PathItem) (w rest : List UInt8),
    (∀ c ∈ w, isBlank c) → text.drop pos = w ++ (nodesToXml pconv depth children ++ rest) →
    ∃ pos' w', Turns conv text (.inside pos (A ++ subtree A.length up t) A.length none path)
        (.inside pos' (A ++ subtree A.length up t') A.length none path) ∧
      (∀ c ∈ w', isBlank c) ∧ text.drop pos' = w' ++ rest

/-- The two kinds of containers: the path item, the tag and the node without children. -/
inductive IsContainer : PathItem → String → Plist → XData → Prop where
  | array : IsContainer .array "array" (.array []) (.array [])
  | dict : IsContainer .dict "dict" (.dict []) (.dict [])

variable {t : Plist}

theorem reads_container {t0 : Plist}
    {children : List Plist} {depth : Nat} (hkind : IsContainer item name t0 data)
    (hxml : nodeToXml pconv depth t = tabs depth ++ openTag name ++ [10] ++
      nodesToXml pconv (depth + 1) children ++ tabs depth ++ closeTag name ++ [10])
    (hroot : ∀ base up, ∃ data' below, subtree base up t = ⟨data', up⟩ :: below)
    (hchildren : ReadsChildren conv pconv text (depth + 1) t0 children t) :
    Reads conv pconv text depth t := by
  intro pos nodes nodes' p keyname path w rest haccept hw h
  rw [hxml] at h
  -- the opening tag
  have hopen : text.drop pos = (w ++ tabs depth) ++ (openTag name ++ ([10] ++
      (nodesToXml pconv (depth + 1) children ++
        (tabs depth ++ (closeTag name ++ ([10] ++ rest)))))) := by
    rw [h]
    simp
  have hfirst : Turn conv text (.inside pos nodes p keyname path)
      (.inside (pos + (w ++ tabs depth).length + (openTag name).length)
        (nodes' ++ subtree nodes'.length (some p) t0) nodes'.length none (item :: path)) := by
    rw [haccept.1]
    cases hkind with
    | array => exact turn_node path (readsAs_array conv) haccept (blank_tabs hw depth) hopen
    | dict => exact turn_node path (readsAs_dict conv) haccept (blank_tabs hw depth) hopen
  -- what is in it
  obtain ⟨pos', w', hrun, hw', hbehind⟩ := hchildren _ nodes' (some p) (item :: path) [10]
    (tabs depth ++ (closeTag name ++ ([10] ++ rest))) (by decide)
    (drop_add_of_drop (drop_add_of_drop hopen))
  -- the closing tag
  obtain ⟨data', below, htree⟩ := hroot nodes'.length (some p)
  have hclose : text.drop pos' = (w' ++ tabs depth) ++ (closeTag name ++ ([10] ++ rest)) := by
    rw [hbehind, append_assoc]
  have hitem : item = .dict ∧ name = "dict" ∨ item = .array ∧ name = "array" := by
    cases hkind <;> simp
  have hnode : (nodes' ++ subtree nodes'.length (some p) t)[nodes'.length]? =
      some ⟨data', some p⟩ := by
    rw [htree]
    simp
  have hlast := turn_close conv none path hitem hnode rfl (blank_tabs hw' depth) hclose
  rw [← haccept.1]
  exact ⟨_, (ReflTransGen.head hfirst hrun).tail hlast, drop_add_of_drop (drop_add_of_drop hclose)⟩

mutual

/-- **Every tree is read as it was written.** -/
theorem reads_tree (conv : Conv) (pconv : PrintConv) (text : List UInt8) :
    ∀ (t : Plist) (depth : Nat), XmlTree t → BlobsBelow (2 ^ 31) t → Reads conv pconv text depth t
  | .scalar value length, depth, hok, hblob => by
    rw [XmlTree] at hok
    exact reads_scalar conv pconv text depth hok hblob
  | .array children, depth, hok, hblob => by
    rw [XmlTree] at hok
    rw [BlobsBelow] at hblob
    exact reads_container .array (by rw [nodeToXml]) (fun base up => ⟨_, _, by rw [subtree]⟩)
      (reads_elements conv pconv text children (depth + 1) [] hok hblob)
  | .dict children, depth, hok, hblob => by
    rw [XmlTree] at hok
    rw [BlobsBelow] at hblob
    exact reads_container .dict (by rw [nodeToXml]) (fun base up => ⟨_, _, by rw [subtree]⟩)
      (reads_pairs conv pconv text children (depth + 1) [] (by simp [XmlPairs]) hok.1
        (by simpa [keysOf] using hok.2) hblob)

theorem reads_elements (conv : Conv) (pconv : PrintConv) (text : List UInt8) :
    ∀ (children : List Plist) (depth : Nat) (done : List Plist), XmlElements children →
      AllBlobsBelow (2 ^ 31) children →
      ReadsChildren conv pconv text depth (.array done) children (.array (done ++ children))
  | [], depth, done, _, _ => by
    intro pos A up path w rest hw h
    rw [append_nil]
    exact ⟨pos, w, .refl, hw, by rw [h, nodesToXml, nil_append]⟩
  | child :: children, depth, done, hok, hblob => by
    rw [XmlElements] at hok
    rw [AllBlobsBelow] at hblob
    intro pos A up path w rest hw h
    rw [nodesToXml, append_assoc] at h
    obtain ⟨nodes', haccept, htree⟩ := accepts_array A up done child none
    obtain ⟨pos', hrun, hbehind⟩ := reads_tree conv pconv text child depth hok.1 hblob.1 pos _ _
      _ _ path w _ haccept hw h
    rw [htree] at hrun
    obtain ⟨pos'', w', hrest, hw', hend⟩ := reads_elements conv pconv text children depth
      (done ++ [child]) hok.2 hblob.2 pos' A up path [10] rest (by decide) hbehind
    rw [append_assoc, singleton_append] at hrest
    exact ⟨pos'', w', hrun.trans hrest, hw', hend⟩

theorem reads_pairs (conv : Conv) (pconv : PrintConv) (text : List UInt8) :
    ∀ (children : List Plist) (depth : Nat) (done : List Plist), XmlPairs done →
      XmlPairs children → (keysOf done ++ keysOf children).Nodup →
      AllBlobsBelow (2 ^ 31) children →
      ReadsChildren conv pconv text depth (.dict done) children (.dict (done ++ children))
  | [], depth, done, _, _, _, _ => by
    intro pos A up path w rest hw h
    rw [append_nil]
    exact ⟨pos, w, .refl, hw, by rw [h, nodesToXml, nil_append]⟩
  | [_], _, _, _, hok, _, _ => by simp [XmlPairs] at hok
  | key :: child :: children, depth, done, hdone, hok, hkeys, hblob => by
    rw [XmlPairs] at hok
    rw [AllBlobsBelow, AllBlobsBelow] at hblob
    obtain ⟨hkey, hchild, hchildren⟩ := hok
    obtain ⟨key, rfl, hfree⟩ := hkey.eq
    rw [keysOf] at hkeys
    intro pos A up path w rest hw h
    -- the key
    have hkeytext : text.drop pos = (w ++ tabs depth) ++ (openTag "key" ++ escape key ++
        closeTag "key" ++ ([10] ++ (nodeToXml pconv depth child ++
          (nodesToXml pconv depth children ++ rest)))) := by
      rw [h, nodesToXml, nodesToXml, nodeToXml, scalarToXml, take_length]
      simp
    have hnode : (A ++ subtree A.length up (.dict done))[A.length]? =
        some ⟨.dict (entries (A.length + 1) done), up⟩ := by
      rw [subtree]
      simp
    have hkey := turn_key conv path hfree hnode (blank_tabs hw depth) hkeytext
    -- the value
    have hnew : key ∉ keysOf done := fun hmem =>
      disjoint_of_nodup_append hkeys hmem mem_cons_self
    obtain ⟨nodes', haccept, htree⟩ := accepts_dict A up key.length child hdone
      hfree hnew
    obtain ⟨pos', hrun, hbehind⟩ := reads_tree conv pconv text child depth hchild hblob.2.1 _ _ _
      _ _ path [10] _ haccept (by decide) (drop_add_of_drop (drop_add_of_drop hkeytext))
    rw [htree] at hrun
    -- and what comes after it
    have hpair : XmlPairs [.scalar (.key key) key.length, child] := by
      simp [XmlPairs, XmlKey, hfree, hchild]
    obtain ⟨pos'', w', hrest, hw', hend⟩ := reads_pairs conv pconv text children depth
      (done ++ [.scalar (.key key) key.length, child]) (hdone.append hpair) hchildren
      (by rw [(entries_append 0 hdone _).2]; simpa [keysOf] using hkeys) hblob.2.2 pos' A up path
      [10] rest (by decide) hbehind
    rw [append_assoc, cons_append, cons_append, nil_append] at hrest
    exact ⟨pos'', w', (ReflTransGen.head hkey hrun).trans hrest, hw', hend⟩

end

/-! ## The whole text -/

theorem xmlPlistProlog_length : xmlPlistProlog.length = 164 := by rfl

/-- The state behind `<plist>`. -/
def State.start (pos : Nat) : State := ⟨pos, false, [], none, none, none, false, [.plist]⟩

theorem turns_prolog (conv : Conv) {rest : List UInt8} (htext : text = xmlPlistProlog ++ rest) :
    Turns conv text .init (.start 163) ∧ text.drop 163 = [10] ++ rest := by
  have hlen : text.length = rest.length + 164 := by
    rw [htext, length_append, Nat.add_comm, xmlPlistProlog_length]
  have h0 : text.drop 0 = [] ++ ch '<' :: (xmlWords ++ (lit "?>" ++ ([10] ++ (doctypeLine ++
      ([10] ++ (plistLine ++ ([10] ++ rest))))))) := by
    rw [drop_zero, htext, xmlPlistProlog, xmlLine_eq]
    simp
  have h1 := drop_succ_of_drop h0
  have h2 : text.drop 38 = [10] ++ ch '<' :: (lit "!DOCTYPE" ++ 32 :: (lit "plist" ++ 32 ::
      (lit "PUBLIC" ++ 32 :: (publicId ++ 32 :: (systemId ++ ch '>' ::
        ([10] ++ (plistLine ++ ([10] ++ rest)))))))) := by
    have hdrop : text.drop 38 = _ := drop_add_of_drop (drop_add_of_drop h1)
    rw [hdrop, doctypeLine_eq]
    simp
  have h3 := drop_succ_of_drop (drop_add_of_drop h2)
  have hplist : plistLine = ch '<' :: (lit "plist" ++ 32 :: (lit "version=\"1.0\"" ++ [ch '>'])) := by
    decide
  have h4 : text.drop 141 = [10] ++ ch '<' :: (lit "plist" ++ 32 :: (lit "version=\"1.0\"" ++
      ch '>' :: ([10] ++ rest))) := by
    have hdrop : text.drop (38 + 1 + 102) = [10] ++ (plistLine ++ ([10] ++ rest)) := by
      have hword : text.drop (38 + 1) = doctypeLine ++ ([10] ++ (plistLine ++ ([10] ++ rest))) := by
        rw [drop_succ_of_drop h2, doctypeLine_eq]
        simp
      exact drop_add_of_drop hword
    rw [hdrop, hplist]
    simp
  have h5 := drop_succ_of_drop (drop_add_of_drop h4)
  -- the three turns
  have hturn1 : Turn conv text .init { State.init with pos := 38 } := by
    refine ⟨by rw [hlen]; exact Nat.succ_pos _, by decide, rfl, ?_⟩
    rw [parseStep_eq (c := ch '?') conv h0 (by simp), if_pos rfl]
    have hskip := skipInstruction_xml (by simp) h1
    rw [show State.init.pos + ([] : List UInt8).length + 1 = 0 + 1 from rfl, hskip]
    rfl
  have hturn2 : Turn conv text { State.init with pos := 38 } { State.init with pos := 141 } := by
    refine ⟨by rw [hlen]; exact Nat.lt_of_lt_of_le (by decide) (Nat.le_add_left _ _), by decide,
      rfl, ?_⟩
    rw [parseStep_eq (c := ch '!') conv h2 (by decide), if_neg (by decide), if_pos rfl]
    have hskip := skipSpecial_doctype h3
    rw [show ({ State.init with pos := 38 } : State).pos + ([10] : List UInt8).length + 1 =
      38 + ([10] : List UInt8).length + 1 from rfl, hskip]
    rfl
  have hturn3 : Turn conv text { State.init with pos := 141 } (.start 163) := by
    refine ⟨by rw [hlen]; exact Nat.lt_of_lt_of_le (by decide) (Nat.le_add_left _ _), by decide,
      rfl, ?_⟩
    rw [parseStep_tag (c := ch 'p') conv h4 (by decide) (by decide) (by decide), parseTag]
    have hread := readTag_plist h5
    rw [show ({ State.init with pos := 141 } : State).pos + ([10] : List UInt8).length + 1 =
      141 + ([10] : List UInt8).length + 1 from rfl, hread]
    rfl
  refine ⟨.head hturn1 (.head hturn2 (.single hturn3)), ?_⟩
  have hline : text.drop 142 = plistLine ++ ([10] ++ rest) := by
    rw [drop_succ_of_drop h4, hplist]
    simp
  exact drop_add_of_drop hline

theorem parseStep_root (hread : ReadsAs conv piece data) (hw : ∀ c ∈ w, isBlank c)
    (h : text.drop pos = w ++ (piece ++ rest)) :
    parseStep conv text (.start pos) =
      .ok (if data.pathItem.isNone then
          .out ⟨pos + w.length + piece.length, false, [⟨data, none⟩], some 0, none, none, true,
            [.plist]⟩
        else
          .more (.inside (pos + w.length + piece.length) [⟨data, none⟩] 0 none
            (data.pathItem.toList ++ [.plist]))) := by
  obtain ⟨c, b, rfl, hc, hc', hread⟩ := hread
  have hopen := drop_add_of_drop h
  obtain ⟨tag, q, htag, hplist, hplist', hfilled, hcontent⟩ :=
    hread text (pos + w.length + 1) rest (drop_succ_of_drop hopen)
  have hpos : (State.start pos).pos = pos := rfl
  have hpos' : pos + w.length + 1 + (c :: b).length = pos + w.length + (ch '<' :: c :: b).length := by
    simp only [length_cons]
    omega
  rw [parseStep_tag conv h hw hc hc', hpos, parseTag, htag, ok_bind]
  simp only
  rw [if_neg hplist, if_neg hplist', nodeTag]
  simp only [hcontent, ok_bind, hpos']
  rw [placeNode]
  simp only [State.start]
  cases hitem : data.pathItem with
  | none => rfl
  | some item =>
    simp only [State.enter, hitem]
    rw [hfilled (by rw [hitem]; rfl), if_neg (by simp)]
    rfl

theorem parseLoop_container {t0 : Plist}
    {children : List Plist} (hkind : IsContainer item name t0 data)
    (hxml : nodeToXml pconv 0 t = tabs 0 ++ openTag name ++ [10] ++
      nodesToXml pconv 1 children ++ tabs 0 ++ closeTag name ++ [10])
    (hroot : ∃ data' below, subtree 0 none t = ⟨data', none⟩ :: below)
    (hchildren : ReadsChildren conv pconv text 1 t0 children t)
    (h : text.drop pos = [10] ++ (nodeToXml pconv 0 t ++ rest)) :
    ∃ s, (∀ fuel > text.length - pos, parseLoop conv text fuel (.start pos) = .ok s) ∧
      s.nodes = subtree 0 none t ∧ s.plist = some 0 ∧ s.err = false := by
  rw [hxml] at h
  have hopen : text.drop pos = [10] ++ (openTag name ++ ([10] ++ (nodesToXml pconv 1 children ++
      (closeTag name ++ ([10] ++ rest))))) := by
    rw [h]
    simp [tabs]
  have hlt := lt_length_of_drop hopen
  have hfirst : Turn conv text (.start pos) (.inside (pos + 1 + (openTag name).length)
      ([] ++ subtree ([] : List XNode).length none t0) ([] : List XNode).length none
        [item, .plist]) := by
    refine ⟨hlt, ?_, rfl, ?_⟩
    · show pos < pos + 1 + (openTag name).length
      omega
    · cases hkind with
      | array => exact parseStep_root (readsAs_array conv) (by decide) hopen
      | dict => exact parseStep_root (readsAs_dict conv) (by decide) hopen
  obtain ⟨pos', w', hrun, hw', hbehind⟩ := hchildren _ [] none [item, .plist] [10]
    (closeTag name ++ ([10] ++ rest)) (by decide) (drop_add_of_drop (drop_add_of_drop hopen))
  obtain ⟨data', below, htree⟩ := hroot
  have hitem : item = .dict ∧ name = "dict" ∨ item = .array ∧ name = "array" := by
    cases hkind <;> simp
  have hnode : (subtree 0 none t)[0]? = some ⟨data', none⟩ := by
    rw [htree]
    simp
  have hlast := parseStep_close conv none [.plist] hitem hnode hw' hbehind
  refine ⟨_, parseLoop_turns (.head hfirst hrun) (r := ⟨pos' + w'.length + (closeTag name).length,
    false, subtree 0 none t, some 0, none, none, true, [.plist]⟩) fun fuel hfuel => ?_, rfl, rfl, rfl⟩
  have hlt' := lt_length_of_drop (drop_add_of_drop hbehind)
  obtain ⟨fuel, rfl⟩ := Nat.exists_eq_succ_of_ne_zero (n := fuel) (by omega)
  have hmore : (State.inside pos' ([] ++ subtree ([] : List XNode).length none t)
      ([] : List XNode).length none [item, .plist]).pos < text.length ∧
      (State.inside pos' ([] ++ subtree ([] : List XNode).length none t)
        ([] : List XNode).length none [item, .plist]).err = false := by
    refine ⟨?_, rfl⟩
    show pos' < text.length
    omega
  rw [parseLoop, if_pos hmore]
  have hstep : parseStep conv text (.inside pos' ([] ++ subtree ([] : List XNode).length none t)
      ([] : List XNode).length none [item, .plist]) = _ := hlast
  rw [hstep]
  rfl

theorem parseLoop_scalar {value : Scalar} {length : Nat}
    (hread : ReadsAs conv piece (.scalar value length))
    (h : text.drop pos = [10] ++ (piece ++ rest)) :
    ∀ fuel > text.length - pos, parseLoop conv text fuel (.start pos) =
      .ok ⟨pos + 1 + piece.length, false, [⟨.scalar value length, none⟩], some 0, none, none, true,
        [.plist]⟩ := by
  intro fuel hfuel
  have hlt := lt_length_of_drop h
  obtain ⟨fuel, rfl⟩ := Nat.exists_eq_succ_of_ne_zero (n := fuel) (by omega)
  rw [parseLoop, if_pos ⟨hlt, rfl⟩, parseStep_root hread (by decide) h]
  rfl

/-- **Round trip, in nodes.**  The reader makes the nodes of the tree. -/
theorem nodeFromXml_printed (conv : Conv) (pconv : PrintConv) (hok : XmlTree t)
    (hblob : BlobsBelow (2 ^ 31) t)
    (htext : text = xmlPlistProlog ++ nodeToXml pconv 0 t ++ xmlPlistEpilog) :
    ∀ fuel > text.length, nodeFromXml conv text fuel = .ok (subtree 0 none t, some 0, false) := by
  rw [append_assoc] at htext
  obtain ⟨hprolog, hrest⟩ := turns_prolog conv htext
  obtain ⟨s, hs, hnodes, hplist, herr⟩ : ∃ s,
      (∀ fuel > text.length - 163, parseLoop conv text fuel (.start 163) = .ok s) ∧
        s.nodes = subtree 0 none t ∧ s.plist = some 0 ∧ s.err = false := by
    match t, hok, hblob, hrest with
    | .scalar value length, hok, hblob, hrest =>
      rw [XmlTree] at hok
      rw [nodeToXml, tabs, replicate_zero, nil_append, append_assoc] at hrest
      refine ⟨_, parseLoop_scalar (readsAs_scalar conv pconv 0 hok hblob) hrest, ?_, rfl, rfl⟩
      cases value with
      | key _ => exact hok.elim
      | _ => rfl
    | .array children, hok, hblob, hrest =>
      rw [XmlTree] at hok
      rw [BlobsBelow] at hblob
      exact parseLoop_container .array (by rw [nodeToXml]) ⟨_, _, by rw [subtree]⟩
        (reads_elements conv pconv text children 1 [] hok hblob) hrest
    | .dict children, hok, hblob, hrest =>
      rw [XmlTree] at hok
      rw [BlobsBelow] at hblob
      exact parseLoop_container .dict (by rw [nodeToXml]) ⟨_, _, by rw [subtree]⟩
        (reads_pairs conv pconv text children 1 [] (by simp [XmlPairs]) hok.1
          (by simpa [keysOf] using hok.2) hblob) hrest
  intro fuel hfuel
  have hloop := parseLoop_turns hprolog hs fuel (by
    show text.length - 0 < fuel
    omega)
  rw [nodeFromXml, hloop, ok_bind, hnodes, hplist, herr]
  rfl

/-! ## The tree that is in the nodes -/

theorem size_pos (h : XmlTree t) : 0 < size t := by
  cases t with
  | scalar value length =>
    rw [XmlTree] at h
    cases value with
    | key _ => exact h.elim
    | _ => exact Nat.one_pos
  | array children => exact Nat.succ_pos _
  | dict children => exact Nat.succ_pos _

theorem getElem?_of_drop {base : Nat} {B : List XNode} (h : nodes.drop base = node :: B) :
    nodes[base]? = some node := by
  rw [← List.head?_drop, h, List.head?_cons]

theorem drop_forest {base : Nat} {A B : List XNode} (h : nodes.drop base = A ++ B) :
    nodes.drop (base + A.length) = B := by
  rw [← drop_drop, h, drop_left]

mutual

theorem treeAt_subtree : ∀ (t : Plist), XmlTree t → ∀ (nodes B : List XNode) (base : Nat)
    (up : Option Nat) (fuel : Nat), nodes.drop base = subtree base up t ++ B → size t ≤ fuel →
    treeAt nodes fuel base = some t
  | .scalar value length, hok, nodes, B, base, up, fuel, h, hfuel => by
    have hpos := size_pos hok
    obtain ⟨fuel, rfl⟩ := Nat.exists_eq_succ_of_ne_zero (n := fuel) (by omega)
    rw [XmlTree] at hok
    have htree : subtree base up (.scalar value length) = [⟨.scalar value length, up⟩] := by
      cases value with
      | key _ => exact hok.elim
      | _ => rfl
    rw [htree] at h
    rw [treeAt, getElem?_of_drop h]
  | .array children, hok, nodes, B, base, up, fuel, h, hfuel => by
    rw [XmlTree] at hok
    rw [size] at hfuel
    obtain ⟨fuel, rfl⟩ := Nat.exists_eq_succ_of_ne_zero (n := fuel) (by omega)
    rw [subtree, cons_append] at h
    have hchildren := treeAt_elements children hok nodes B (base + 1) base fuel
      (drop_forest (A := [_]) h) (by omega)
    rw [treeAt, getElem?_of_drop h]
    simp only [hchildren, Option.map_some]
  | .dict children, hok, nodes, B, base, up, fuel, h, hfuel => by
    rw [XmlTree] at hok
    rw [size] at hfuel
    obtain ⟨fuel, rfl⟩ := Nat.exists_eq_succ_of_ne_zero (n := fuel) (by omega)
    rw [subtree, cons_append] at h
    have hchildren := treeAt_pairs children hok.1 nodes B (base + 1) base fuel
      (drop_forest (A := [_]) h) (by omega)
    rw [treeAt, getElem?_of_drop h]
    simp only
    obtain ⟨pairs, hpairs, hflat⟩ := Option.map_eq_some_iff.mp hchildren
    rw [hpairs, Option.map_some, hflat]

theorem treeAt_elements : ∀ (ts : List Plist), XmlElements ts → ∀ (nodes B : List XNode)
    (base parent : Nat) (fuel : Nat), nodes.drop base = forest base parent ts ++ B →
    sizes ts ≤ fuel → (childIds base ts).mapM (treeAt nodes fuel) = some ts
  | [], _, _, _, _, _, _, _, _ => rfl
  | t :: ts, hok, nodes, B, base, parent, fuel, h, hfuel => by
    rw [XmlElements] at hok
    rw [sizes] at hfuel
    rw [forest, append_assoc] at h
    have hrest := drop_forest h
    rw [subtree_length] at hrest
    have ht := treeAt_subtree t hok.1 nodes _ base _ fuel h (by omega)
    have hts := treeAt_elements ts hok.2 nodes B _ parent fuel hrest (by omega)
    rw [childIds, mapM_cons, ht, hts]
    rfl

theorem treeAt_pairs : ∀ (ts : List Plist), XmlPairs ts → ∀ (nodes B : List XNode)
    (base parent : Nat) (fuel : Nat), nodes.drop base = forest base parent ts ++ B →
    sizes ts ≤ fuel →
    ((entries base ts).mapM fun e => (treeAt nodes fuel e.2).map fun value =>
      [.scalar (.key e.1) e.1.length, value]).map List.flatten = some ts
  | [], _, _, _, _, _, _, _, _ => rfl
  | [_], hok, _, _, _, _, _, _, _ => by simp [XmlPairs] at hok
  | key :: t :: ts, hok, nodes, B, base, parent, fuel, h, hfuel => by
    rw [XmlPairs] at hok
    obtain ⟨hkey, htok, htsok⟩ := hok
    obtain ⟨key, rfl, -⟩ := hkey.eq
    rw [sizes, sizes, size, Nat.zero_add] at hfuel
    rw [forest, subtree, nil_append, size, Nat.add_zero, forest, append_assoc] at h
    have hrest := drop_forest h
    rw [subtree_length] at hrest
    have ht := treeAt_subtree t htok nodes _ base _ fuel h (by omega)
    have hts := treeAt_pairs ts htsok nodes B _ parent fuel hrest (by omega)
    obtain ⟨pairs, hpairs, hflat⟩ := Option.map_eq_some_iff.mp hts
    rw [entries, mapM_cons, ht, hpairs]
    simp [hflat]

end

theorem treeAt_whole {t : Plist} (hok : XmlTree t) :
    treeAt (subtree 0 none t) (subtree 0 none t).length 0 = some t :=
  treeAt_subtree t hok _ [] 0 none _ (by simp) (by rw [subtree_length])

theorem plistFromXml_printed (conv : Conv) (pconv : PrintConv) {t : Plist} (hok : XmlTree t)
    (hblob : BlobsBelow (2 ^ 31) t) (hlen : (plistToXml pconv t).1.length < 2 ^ 32) :
    ∀ fuel > (plistToXml pconv t).1.length,
      plistFromXml conv (plistToXml pconv t).1 (plistToXml pconv t).2 fuel =
        .ok (subtree 0 none t, some 0) := by
  intro fuel hfuel
  obtain ⟨text, htext⟩ : ∃ text, (plistToXml pconv t).1 = text := ⟨_, rfl⟩
  have hxml : text = xmlPlistProlog ++ nodeToXml pconv 0 t ++ xmlPlistEpilog := htext.symm
  have hlength : (plistToXml pconv t).2 = text.length := by
    rw [← htext]
    exact Nat.mod_eq_of_lt hlen
  have hne : text.length ≠ 0 := by
    rw [hxml, xmlPlistProlog, xmlLine_eq]
    simp
  rw [htext] at hfuel
  rw [hlength, htext, plistFromXml, if_neg hne, take_length,
    nodeFromXml_printed conv pconv hok hblob hxml fuel hfuel]
  rfl

/-- **Round trip.**  A tree that is written to a text of less than 4 GiB is read back from it. -/
theorem plistFromXml_plistToXml (conv : Conv) (pconv : PrintConv) (t : Plist) (hok : XmlTree t)
    (hblob : BlobsBelow (2 ^ 31) t) (hlen : (plistToXml pconv t).1.length < 2 ^ 32) :
    ∃ nodes root, treeAt nodes nodes.length root = some t ∧
      ∀ fuel > (plistToXml pconv t).1.length,
        plistFromXml conv (plistToXml pconv t).1 (plistToXml pconv t).2 fuel =
          .ok (nodes, some root) :=
  ⟨_, 0, treeAt_whole hok, plistFromXml_printed conv pconv hok hblob hlen⟩

end

/-- An array of a string, a number and an empty blob, under a key. -/
def sampleTree : Plist :=
  .dict [.scalar (.key [107]) 1,
    .array [.scalar (.string [60, 120]) 2, .scalar (.uint 300) 8, .scalar (.data []) 0]]

theorem plistFromXml_plistToXml_sampleTree :
    ∃ nodes root, treeAt nodes nodes.length root = some sampleTree ∧
      plistFromXml ⟨fun _ => 0, fun _ => 0, fun _ => 0⟩
        (plistToXml ⟨fun _ => [], fun _ => none⟩ sampleTree).1
        (plistToXml ⟨fun _ => [], fun _ => none⟩ sampleTree).2 500 = .ok (nodes, some root) := by
  have hlen : (plistToXml ⟨fun _ => [], fun _ => none⟩ sampleTree).1.length = 290 := by
    have hnode : (nodeToXml ⟨fun _ => [], fun _ => none⟩ 0 sampleTree).length = 117 := by decide
    rw [plistToXml, length_append, length_append, xmlPlistProlog_length, hnode]
    rfl
  obtain ⟨nodes, root, htree, hread⟩ := plistFromXml_plistToXml ⟨fun _ => 0, fun _ => 0, fun _ => 0⟩
    ⟨fun _ => [], fun _ => none⟩ sampleTree
    (by simp [sampleTree, XmlTree, XmlPairs, XmlElements, XmlKey, XmlScalar, keysOf, NulFree])
    (by simp [sampleTree, BlobsBelow, AllBlobsBelow]) (by omega)
  exact ⟨nodes, root, htree, hread 500 (by omega)⟩

/-! ## Texts of 4 GiB -/

/-- A string of `n` letters. -/
def letters (n : Nat) : Plist := .scalar (.string (List.replicate n (ch 'a'))) n

theorem escape_letters (n : Nat) :
    escape (List.replicate n (ch 'a')) = List.replicate n (ch 'a') := by
  induction n with
  | zero => rfl
  | succ n ih => rw [replicate_succ, escape, flatMap_cons, ← escape, ih]; rfl

theorem plistToXml_letters_length (pconv : PrintConv) (n : Nat) :
    (plistToXml pconv (letters n)).1.length = n + 191 := by
  have htake : (List.replicate n (ch 'a')).take n = List.replicate n (ch 'a') :=
    take_of_length_le (by rw [length_replicate])
  have hepilog : xmlPlistEpilog.length = 9 := rfl
  have hopen : (openTag "string").length = 8 := rfl
  have hclose : (closeTag "string").length = 9 := rfl
  simp only [plistToXml, letters, nodeToXml, scalarToXml, htake, escape_letters, length_append,
    length_replicate, xmlPlistProlog_length, hepilog, hopen, hclose, tabs, length_singleton]
  omega

/-- `*length` is 0 for a text of `2 ^ 32` bytes, and nothing is read back. -/
theorem plistFromXml_letters :
    XmlTree (letters (2 ^ 32 - 191)) ∧ ∀ conv pconv fuel,
      plistFromXml conv (plistToXml pconv (letters (2 ^ 32 - 191))).1
        (plistToXml pconv (letters (2 ^ 32 - 191))).2 fuel = .ok ([], none) := by
  refine ⟨?_, fun conv pconv fuel => ?_⟩
  · rw [letters, XmlTree]
    refine ⟨fun c hc => ?_, by rw [length_replicate]⟩
    rw [eq_of_mem_replicate hc]
    decide
  · have hlen := plistToXml_letters_length pconv (2 ^ 32 - 191)
    have hlength : (plistToXml pconv (letters (2 ^ 32 - 191))).2 = 0 := by
      have hmod : (plistToXml pconv (letters (2 ^ 32 - 191))).2 =
          (plistToXml pconv (letters (2 ^ 32 - 191))).1.length % 2 ^ 32 := rfl
      rw [hmod, hlen]
      decide
    rw [hlength, plistFromXml, if_pos rfl]

end IDeviceStack.Libplist.Xplist
