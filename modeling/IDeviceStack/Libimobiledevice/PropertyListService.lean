/-
# `Libimobiledevice.PropertyListService` — plists over a byte stream

`property_list_service.c`: a message is the length of a plist in four bytes and the plist
itself, binary or XML.  The length is taken with one read; the plist is read in a loop.

* The stream is lossless.  A read brings between one byte and what it asks for, if
  there is something left; how many may depend on where it stands in the stream and on
  what it asks for (`Segmentation`).  At the end of the stream it runs into the timeout,
  which is a success without bytes.
* What is sent is sent whole.
* `plist_to_bin`, `plist_to_xml`, `plist_from_bin` and `plist_from_xml` are those of
  `Libplist`.  That a parser leaves its input is an outcome like the others (`crashed`); the
  next call is made as if it had returned.
* Memory is not short.

**Proved here.**  `receives_segmented_iff`.
-/
import IDeviceStack.Libplist.Bplist.Write
import IDeviceStack.Libplist.Xplist.Parse
import IDeviceStack.Libplist.Xplist.Print

namespace IDeviceStack.Libimobiledevice

open Lib Libplist Libplist.Bplist List
  Libplist.Xplist

/-! ## The transport -/

/-- How a stream arrives: the number of bytes that a read of `size` bytes at a position brings,
should the stream go on for that long. -/
structure Segmentation where
  grant : Nat → Nat → Nat
  grant_pos : ∀ pos size, 0 < size → 0 < grant pos size
  grant_le : ∀ pos size, grant pos size ≤ size

/-- Every read brings what it asks for. -/
def Segmentation.whole : Segmentation where
  grant _ size := size
  grant_pos _ _ h := h
  grant_le _ _ := Nat.le_refl _

/-- The bytes of one `service_receive`. -/
def Segmentation.read (seg : Segmentation) (stream : List UInt8) (pos size : Nat) : List UInt8 :=
  (stream.drop pos).take (seg.grant pos size)

/-! ## Messages -/

/-- `property_list_service_error_t`, those that are returned here. -/
inductive PropertyListServiceError where
  | success
  | plistError
  | muxError
  | receiveTimeout
  deriving DecidableEq, Repr

/-- The build, the buffers and the conversions of `Libplist`. -/
structure PlistEnv where
  build : Build
  narrow : Narrow
  widen : Nat → Nat
  conv : Conv
  printConv : PrintConv
  /-- The address of a buffer that `plist_from_bin` reads. -/
  base : Nat

/-- A plist that is sent, with `binary`. -/
inductive Outgoing where
  | xml (plist : Plist)
  | binary (plist : Bplist.Node)

/-- `content` and `length`. -/
def Outgoing.content (env : PlistEnv) : Outgoing → Option (List UInt8 × Nat)
  | .xml plist => some (plistToXml env.printConv plist)
  | .binary plist =>
    (plistToBin env.build env.narrow plist).map fun bytes => (bytes, bytes.length % 2 ^ 32)

/-- `internal_plist_send`: the result, and what goes over the stream. -/
def internalPlistSend (env : PlistEnv) (plist : Outgoing) :
    PropertyListServiceError × List UInt8 :=
  match plist.content env with
  | none => (.plistError, [])
  | some (content, length) =>
    if length = 0 then (.plistError, [])
    else (.success, beBytes 4 length ++ content.take length)

/-- A plist that was received: the tree, or the nodes with the index of the root. -/
inductive Incoming where
  | binary (plist : Plist)
  | xml (nodes : List XNode) (root : Nat)

/-- What a call of `internal_plist_receive_timeout` comes to. -/
inductive ReceivedPlist where
  | plist (plist : Incoming)
  | error (e : PropertyListServiceError)
  | crashed

/-- A `char` that XML does not know. -/
def isControl (c : UInt8) : Bool :=
  c.toNat < 0x20 && c.toNat != 0x09 && c.toNat != 0x0a && c.toNat != 0x0d

/-- Control characters become spaces, but for the last one. -/
def blankControls (content : List UInt8) : List UInt8 :=
  content.dropLast.map (fun c => if isControl c then 0x20 else c) ++ content.drop (content.length - 1)

/-- What is made of the bytes of a message. -/
def parseContent (env : PlistEnv) (content : List UInt8) : ReceivedPlist :=
  let pktlen := content.length
  if pktlen > 8 ∧ content.take 8 = lit "bplist00" then
    match plistFromBin ⟨.machine, env.build, ⟨env.base, content⟩, env.widen⟩ (pktlen + 1) with
    | .ok (some plist, _) => .plist (.binary plist)
    | .ok (none, _) => .error .plistError
    | .error _ => .crashed
  else if pktlen > 5 ∧ content.take 5 = lit "<?xml" then
    match plistFromXml env.conv (blankControls content) pktlen (pktlen + 1) with
    | .ok (nodes, some root) => .plist (.xml nodes root)
    | .ok (_, none) => .error .plistError
    | .error _ => .crashed
  else .error .plistError

/-- The loop that reads `pktlen` bytes; `content` are those that are there.  The result is what
was read, with the position behind it. -/
def receiveBody (seg : Segmentation) (stream : List UInt8) (pktlen : Nat) :
    Nat → Nat → List UInt8 → List UInt8 × Nat
  | 0, pos, content => (content, pos)
  | fuel + 1, pos, content =>
    if content.length < pktlen then
      let bytes := seg.read stream pos (pktlen - content.length)
      if bytes = [] then (content, pos)
      else receiveBody seg stream pktlen fuel (pos + bytes.length) (content ++ bytes)
    else (content, pos)

/-- `internal_plist_receive_timeout` from a position of the stream, with the position after it. -/
def internalPlistReceiveTimeout (env : PlistEnv) (seg : Segmentation) (stream : List UInt8)
    (pos : Nat) : ReceivedPlist × Nat :=
  let first := seg.read stream pos 4
  if first = [] then (.error .receiveTimeout, pos)
  else if first.length < 4 then (.error .muxError, pos + first.length)
  else
    let pktlen := beVal first
    let (content, pos) := receiveBody seg stream pktlen pktlen (pos + 4) []
    if content.length < pktlen then (.error .muxError, pos)
    else (parseContent env content, pos)

/-- What `n` calls return, one after the other. -/
def receives (env : PlistEnv) (seg : Segmentation) (stream : List UInt8) :
    Nat → Nat → List ReceivedPlist
  | 0, _ => []
  | n + 1, pos =>
    let r := internalPlistReceiveTimeout env seg stream pos
    r.1 :: receives env seg stream n r.2

/-- The messages of a sequence of plists; what cannot be sent leaves none. -/
def messages (env : PlistEnv) (plists : List Outgoing) : List (List UInt8) :=
  (plists.map fun plist => (internalPlistSend env plist).2).filter (· ≠ [])

/-- Where messages start that follow one another from `pos` on. -/
def startsFrom : Nat → List (List UInt8) → List Nat
  | _, [] => []
  | pos, m :: ms => pos :: startsFrom (pos + m.length) ms

/-! ## One message -/

section Receiving

variable (env : PlistEnv) {seg : Segmentation} {stream rest body : List UInt8} {pos : Nat}

theorem Segmentation.read_eq (hdrop : stream.drop pos = body ++ rest) :
    seg.read stream pos body.length = body.take (seg.grant pos body.length) := by
  rw [Segmentation.read, hdrop]
  exact take_append_of_le_length (seg.grant_le pos _)

/-- **The loop leaves no trace of the segments.**  Of a plist the part `content` is there; the rest,
`body`, comes whatever the pieces are. -/
theorem receiveBody_eq {content : List UInt8} {fuel : Nat} (hfuel : body.length ≤ fuel)
    (hdrop : stream.drop pos = body ++ rest) :
    receiveBody seg stream (content.length + body.length) fuel pos content =
      (content ++ body, pos + body.length) := by
  induction fuel generalizing pos content body with
  | zero =>
    obtain rfl : body = [] := length_eq_zero_iff.mp (Nat.le_zero.mp hfuel)
    rw [receiveBody, append_nil]
    rfl
  | succ fuel ih =>
    rw [receiveBody]
    by_cases hnil : body = []
    · subst hnil
      rw [if_neg (by simp), append_nil]
      rfl
    · have hlen : 0 < body.length := length_pos_iff.mpr hnil
      have hpos := seg.grant_pos pos body.length hlen
      have hle := seg.grant_le pos body.length
      rw [if_pos (by omega), Nat.add_sub_cancel_left]
      obtain ⟨k, hk⟩ : ∃ k, seg.grant pos body.length = k := ⟨_, rfl⟩
      rw [Segmentation.read_eq hdrop, hk]
      rw [hk] at hpos hle
      have htake : (body.take k).length = k := length_take_of_le hle
      have hne : body.take k ≠ [] := by
        rw [← length_pos_iff, htake]
        exact hpos
      -- `k` bytes are read, and the loop goes on with the others
      have hnext : stream.drop (pos + k) = body.drop k ++ rest := by
        rw [← drop_drop, hdrop, drop_append_of_le_length hle]
      have hrest : (body.drop k).length = body.length - k := length_drop
      have htotal : (content ++ body.take k).length + (body.drop k).length =
          content.length + body.length := by
        rw [length_append, htake, hrest]
        omega
      have hih : receiveBody seg stream ((content ++ body.take k).length + (body.drop k).length) fuel
          (pos + k) (content ++ body.take k) =
            (content ++ body.take k ++ body.drop k, pos + k + (body.drop k).length) :=
        ih (by omega) hnext
      rw [htotal] at hih
      simp only
      rw [if_neg hne, htake, hih, append_assoc, take_append_drop, hrest]
      exact Prod.ext rfl (by simp only; omega)

variable (hlen : body.length < 2 ^ 32)
  (hdrop : stream.drop pos = (beBytes 4 body.length ++ body) ++ rest)
include hlen hdrop

theorem internalPlistReceiveTimeout_whole (hgrant : seg.grant pos 4 = 4) :
    internalPlistReceiveTimeout env seg stream pos =
      (parseContent env body, pos + (beBytes 4 body.length ++ body).length) := by
  have hfirst : seg.read stream pos 4 = beBytes 4 body.length := by
    rw [append_assoc] at hdrop
    rw [Segmentation.read, hgrant, hdrop, take_left' (length_beBytes 4 _)]
  have hbody : stream.drop (pos + 4) = body ++ rest := by
    rw [← drop_drop, hdrop, append_assoc, drop_left' (length_beBytes 4 _)]
  have hread : receiveBody seg stream ([].length + body.length) body.length (pos + 4) [] =
      ([] ++ body, pos + 4 + body.length) := receiveBody_eq (Nat.le_refl _) hbody
  rw [length_nil, Nat.zero_add, nil_append] at hread
  have hval : beVal (beBytes 4 body.length) = body.length := beVal_beBytes (by omega)
  have hne : beBytes 4 body.length ≠ [] := by
    rw [← length_pos_iff, length_beBytes]
    decide
  simp only [internalPlistReceiveTimeout]
  rw [hfirst, if_neg hne, length_beBytes, if_neg (by decide), hval, hread]
  simp only
  rw [if_neg (Nat.lt_irrefl _), length_append, length_beBytes, Nat.add_assoc]

theorem internalPlistReceiveTimeout_split (hgrant : seg.grant pos 4 ≠ 4) :
    (internalPlistReceiveTimeout env seg stream pos).1 = .error .muxError := by
  have hle := seg.grant_le pos 4
  have hpos := seg.grant_pos pos 4 (by decide)
  have hread : (seg.read stream pos 4).length = seg.grant pos 4 := by
    rw [Segmentation.read, hdrop]
    refine length_take_of_le ?_
    rw [length_append, length_append, length_beBytes]
    omega
  have hne : seg.read stream pos 4 ≠ [] := by
    rw [← length_pos_iff, hread]
    exact hpos
  simp only [internalPlistReceiveTimeout]
  rw [if_neg hne, if_pos (by omega)]

end Receiving

theorem parseContent_ne_muxError (env : PlistEnv) (content : List UInt8) :
    parseContent env content ≠ .error .muxError := by
  simp only [parseContent]
  split
  · split <;> nofun
  · split
    · split <;> nofun
    · nofun

/-! ## Sequences of messages -/

/-- A length and as many bytes. -/
def Framed (m : List UInt8) : Prop :=
  ∃ body, body.length < 2 ^ 32 ∧ m = beBytes 4 body.length ++ body

theorem internalPlistSend_framed (env : PlistEnv) (plist : Outgoing)
    (hne : (internalPlistSend env plist).2 ≠ []) : Framed (internalPlistSend env plist).2 := by
  rw [internalPlistSend] at hne ⊢
  cases hcontent : plist.content env with
  | none =>
    rw [hcontent] at hne
    exact absurd rfl hne
  | some c =>
    obtain ⟨content, length⟩ := c
    simp only [hcontent] at hne ⊢
    by_cases hzero : length = 0
    · rw [if_pos hzero] at hne
      exact absurd rfl hne
    · have hlength : length = content.length % 2 ^ 32 := by
        cases plist with
        | xml plist =>
          cases hcontent
          rfl
        | binary plist =>
          obtain ⟨bytes, -, hbytes⟩ := Option.map_eq_some_iff.mp hcontent
          cases hbytes
          rfl
      have hlt : length < 2 ^ 32 := hlength ▸ Nat.mod_lt _ (by decide)
      have htake : (content.take length).length = length :=
        length_take_of_le (hlength ▸ Nat.mod_le _ _)
      rw [if_neg hzero]
      exact ⟨content.take length, by omega, by rw [htake]⟩

theorem messages_framed (env : PlistEnv) (plists : List Outgoing) :
    ∀ m ∈ messages env plists, Framed m := by
  intro m hm
  obtain ⟨hmem, hne⟩ := mem_filter.mp hm
  obtain ⟨plist, -, rfl⟩ := mem_map.mp hmem
  exact internalPlistSend_framed env plist (of_decide_eq_true hne)

theorem receives_at_end (env : PlistEnv) (seg seg' : Segmentation) {stream : List UInt8} {pos : Nat}
    (hend : stream.drop pos = []) (n : Nat) :
    receives env seg stream n pos = receives env seg' stream n pos := by
  have hcall : ∀ s : Segmentation,
      internalPlistReceiveTimeout env s stream pos = (.error .receiveTimeout, pos) := by
    intro s
    have hread : s.read stream pos 4 = [] := by rw [Segmentation.read, hend, take_nil]
    simp only [internalPlistReceiveTimeout]
    rw [hread, if_pos rfl]
  induction n with
  | zero => rfl
  | succ n ih =>
    rw [receives, receives, hcall seg, hcall seg']
    exact congrArg _ ih

theorem receives_iff (env : PlistEnv) (seg : Segmentation) {stream : List UInt8}
    {ms : List (List UInt8)} (hms : ∀ m ∈ ms, Framed m) (n : Nat) {pos : Nat}
    (hdrop : stream.drop pos = ms.flatten) :
    receives env seg stream n pos = receives env .whole stream n pos ↔
      ∀ p ∈ (startsFrom pos ms).take n, seg.grant p 4 = 4 := by
  induction n generalizing pos ms with
  | zero => simp [receives]
  | succ n ih =>
    cases ms with
    | nil => simpa [startsFrom] using receives_at_end env seg .whole hdrop (n + 1)
    | cons m ms =>
      obtain ⟨body, hlen, hm⟩ := hms m mem_cons_self
      rw [flatten_cons] at hdrop
      have hthere : stream.drop pos = (beBytes 4 body.length ++ body) ++ ms.flatten := hm ▸ hdrop
      have hnext : stream.drop (pos + m.length) = ms.flatten := by
        rw [← drop_drop, hdrop, drop_left' rfl]
      have hwhole : internalPlistReceiveTimeout env .whole stream pos =
          (parseContent env body, pos + (beBytes 4 body.length ++ body).length) :=
        internalPlistReceiveTimeout_whole env hlen hthere rfl
      rw [← hm] at hwhole
      have hih := ih (fun m' hm' => hms m' (mem_cons_of_mem m hm')) hnext
      rw [receives, receives, hwhole, startsFrom, take_succ_cons, forall_mem_cons, ← hih]
      by_cases hgrant : seg.grant pos 4 = 4
      · have hcall := internalPlistReceiveTimeout_whole env hlen hthere hgrant
        rw [← hm] at hcall
        rw [hcall]
        simp [hgrant]
      · have hcall := internalPlistReceiveTimeout_split env hlen hthere hgrant
        constructor
        · intro heq
          have hhead := (List.cons.inj heq).1
          rw [hcall] at hhead
          exact absurd hhead.symm (parseContent_ne_muxError env body)
        · exact fun h => absurd h.1 hgrant

/-- **Segments are seen only in the lengths.**  Some plists are sent.  The calls that receive
them return what they return of an unsegmented stream if and only if the length of each message that
they come to arrives with one read. -/
theorem receives_segmented_iff (env : PlistEnv) (seg : Segmentation) (plists : List Outgoing)
    (n : Nat) :
    receives env seg (messages env plists).flatten n 0 =
        receives env .whole (messages env plists).flatten n 0 ↔
      ∀ p ∈ (startsFrom 0 (messages env plists)).take n, seg.grant p 4 = 4 :=
  receives_iff env seg (messages_framed env plists) n drop_zero

/-! ## A length in two pieces -/

/-- Reads bring at most two bytes. -/
def Segmentation.pairs : Segmentation where
  grant _ size := min size 2
  grant_pos _ _ h := Nat.lt_min.mpr ⟨h, by decide⟩
  grant_le _ _ := Nat.min_le_left _ _

/-- An environment whose conversions are trivial. -/
def plainEnv : PlistEnv where
  build := .configured
  narrow _ := none
  widen n := n
  conv := ⟨fun _ => 0, fun _ => 0, fun _ => 0⟩
  printConv := ⟨fun _ => [], fun _ => none⟩
  base := 4096

/-- One plist is sent, `true`, and the reads bring two bytes each: the call fails, where without
segments it would not. -/
theorem receives_split_length :
    receives plainEnv .pairs (messages plainEnv [.binary (.scalar 4096 (.boolean 1) 1)]).flatten 1 0 =
        [.error .muxError] ∧
      receives plainEnv .pairs (messages plainEnv [.binary (.scalar 4096 (.boolean 1) 1)]).flatten 1 0 ≠
        receives plainEnv .whole
          (messages plainEnv [.binary (.scalar 4096 (.boolean 1) 1)]).flatten 1 0 := by
  have hstarts : startsFrom 0 (messages plainEnv [.binary (.scalar 4096 (.boolean 1) 1)]) = [0] := by
    decide
  refine ⟨by rfl, fun heq => ?_⟩
  have hall := (receives_iff plainEnv .pairs (messages_framed plainEnv _) 1 drop_zero).mp heq
  rw [hstarts] at hall
  exact absurd (hall 0 (by decide)) (by decide)

end IDeviceStack.Libimobiledevice
