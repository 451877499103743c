/-
# `WebkitProxy.Rpc` — a message arrives as it was sent

From `wi_send_plist` on one side to `wi_on_recv` on the other, through both framings:
packets with their length in front, and chunks of a message in plists of their own.

**Proved here.**  `wiOnRecv_wiSendPlist`, `oversized_message_rejected`.
-/
import IDeviceStack.WebkitProxy.Webinspector

namespace IDeviceStack.WebkitProxy

open Lib Libplist Libplist.Bplist List Option

/-! ## The wrapper -/

theorem wirKey_ok (isPartial : Bool) :
    NulFree (wirKey isPartial) ∧ ValidUtf8 (wirKey isPartial) := by
  cases isPartial with
  | true => exact ⟨by decide, "WIRPartialMessageKey".toList, by decide⟩
  | false => exact ⟨by decide, "WIRFinalMessageKey".toList, by decide⟩

theorem wiDict_valueOk (env : WiEnv) (i : Nat) (isPartial : Bool) (rpc : List UInt8) :
    (wiDict env i isPartial rpc).ValueOk := by
  obtain ⟨hnul, hutf8⟩ := wirKey_ok isPartial
  simp only [wiDict, Node.ValueOk, Node.ValueIs, PairsAre, Node.KeyIs, ScalarOk, and_true]
  exact ⟨hnul, hutf8⟩

theorem wiDict_addresses (env : WiEnv) (i : Nat) (isPartial : Bool) (rpc : List UInt8) :
    (wiDict env i isPartial rpc).addresses.Nodup := by
  have hinj := env.nodes_inj i
  have haddr : (wiDict env i isPartial rpc).addresses
      = [env.nodes i 0, env.nodes i 1, env.nodes i 2] := rfl
  rw [haddr]
  simp [hinj.eq_iff]

theorem writeObjects_congr {f g : Node → Option (List UInt8)} {nodes : List Node}
    (h : ∀ node ∈ nodes, f node = g node) (buff : List UInt8) (offsets : List Nat) :
    writeObjects f nodes buff offsets = writeObjects g nodes buff offsets := by
  induction nodes generalizing buff offsets with
  | nil => rfl
  | cons node nodes ih =>
    rw [writeObjects, writeObjects, h node mem_cons_self]
    cases g node with
    | none => rfl
    | some bytes => exact ih (fun m hm => h m (mem_cons_of_mem node hm)) _ _

theorem plistToBin_wiDict (env env' : WiEnv) (i : Nat) (isPartial : Bool) (rpc : List UInt8) :
    plistToBin env.build env.narrow (wiDict env i isPartial rpc)
      = plistToBin env'.build env'.narrow (wiDict env i isPartial rpc) := by
  obtain ⟨ser, hrun, hser⟩ := serializePlist_serialized (wiDict_valueOk env i isPartial rpc).hashes
    (wiDict_addresses env i isPartial rpc)
  have hwrite : ∀ node ∈ ser.objects, ∀ refSize,
      writeNode env.build env.narrow ser.refTable refSize node
        = writeNode env'.build env'.narrow ser.refTable refSize node := by
    intro node hnode refSize
    have hmem := hser.objects node hnode
    simp only [wiDict, Node.nodes, allNodes, append_nil, cons_append, nil_append,
      mem_cons, not_mem_nil, or_false] at hmem
    rcases hmem with rfl | rfl | rfl
    · rfl
    · rfl
    · rfl
  simp only [plistToBin, hrun, bind_eq_bind, bind_some]
  rw [writeObjects_congr fun node hnode => hwrite node hnode _]

theorem length_writeMarker_le (mark size : Nat) : (writeMarker mark size).length ≤ 10 := by
  rw [writeMarker, length_cons]
  split
  · have hle : intBytes size ≤ 8 := by
      have h8 := (getNeededBytes_le size).2
      rw [intBytes]
      split <;> omega
    rw [writeInt, length_cons, length_beTail _ hle]
    omega
  · exact Nat.le_of_ble_eq_true rfl

theorem length_wiDict {env : WiEnv} {i : Nat} {isPartial : Bool} {rpc data : List UInt8}
    (hrpc : rpc.length ≤ maxRpcLen)
    (h : plistToBin env.build env.narrow (wiDict env i isPartial rpc) = some data) :
    data.length < 2 ^ 16 := by
  obtain ⟨ser, hrun, hser⟩ := serializePlist_serialized (wiDict_valueOk env i isPartial rpc).hashes
    (wiDict_addresses env i isPartial rpc)
  have hcount := serializePlist_length _ hrun
  have hnodes : (wiDict env i isPartial rpc).nodes.length = 3 := rfl
  rw [hnodes, length_nil] at hcount
  have hk : ∀ node ∈ (wiDict env i isPartial rpc).nodes, ∀ bs,
      writeNode env.build env.narrow ser.refTable (getNeededBytes ser.objects.length) node = some bs →
        bs.length ≤ 7606 := by
    intro node hmem bs hbs
    have href := (getNeededBytes_le ser.objects.length).2
    rw [hser.writeNode_eq _ _ _ hmem] at hbs
    obtain rfl := some.inj hbs
    simp only [wiDict, Node.nodes, allNodes, append_nil, cons_append, nil_append,
      mem_cons, not_mem_nil, or_false] at hmem
    rcases hmem with rfl | rfl | rfl
    · simp only [entryOf, dictPairs, map_cons, map_nil, length_append]
      have hmark := length_writeMarker_le BPLIST_DICT (0 + 1)
      simp only [length_cons, length_nil, writeRefs, flatMap_cons, flatMap_nil,
        append_nil, length_beTail _ href]
      omega
    · have hkey : (writeStrval (wirKey isPartial)).length ≤ 23 := by
        cases isPartial with
        | true => decide
        | false => decide
      exact Nat.le_trans hkey (by omega)
    · have hmark := length_writeMarker_le BPLIST_DATA rpc.length
      simp only [entryOf, writeScalar, writeData, writeRawData, length_append, length_take]
      rw [maxRpcLen] at hrpc
      omega
  have hle := hser.length_plistToBin_le env.build env.narrow hrun hk h
  have hmul := Nat.mul_le_mul_right (7606 + 8) hcount
  omega

variable {i : Nat} {data : List UInt8}

/-- **The wrapper is read back.** -/
theorem fromBin_wiDict (env env' : WiEnv) {isPartial : Bool} {rpc : List UInt8}
    (hrpc : rpc.length ≤ maxRpcLen)
    (h : plistToBin env.build env.narrow (wiDict env i isPartial rpc) = some data) :
    fromBin env' data = some (wiDict env i isPartial rpc).toPlist := by
  have hlen := length_wiDict hrpc h
  obtain ⟨bytes, hbytes, hread⟩ := plistFromBin_of_plistToBin env'.build env'.narrow env'.widen
    (wiDict_valueOk env i isPartial rpc) (wiDict_addresses env i isPartial rpc)
  rw [plistToBin_wiDict env env', hbytes] at h
  obtain rfl := some.inj h
  obtain ⟨calls, -, hcalls⟩ := hread (by omega) (.inr hlen) env'.base env'.base_lt
  rw [fromBin, hcalls _ (Nat.lt_succ_self _)]

/-! ## One turn -/

@[simp] theorem Wi.expecting_bodyLength (my : Wi) (length : Nat) :
    (my.expecting length).bodyLength = length := rfl

@[simp] theorem Wi.done_hasLength (my : Wi) : my.done.hasLength = false := rfl

/-- A length in memory is the length of a packet that may come. -/
def LengthOk (my : Wi) (_ : List UInt8) : Prop := my.hasLength = true → my.bodyLength ≤ maxBodyLength

variable {u : List UInt8}

theorem wiParseLength_append (m : Machine) (h : 4 ≤ u.length) (v : List UInt8) :
    wiParseLength m (u ++ v) = wiParseLength m u := by
  rw [wiParseLength, wiParseLength, take_append_of_le_length h]

theorem wiParseLength_le {m : Machine} {length : Nat} (h : wiParseLength m u = (length, none)) :
    length ≤ maxBodyLength := by
  simp only [wiParseLength] at h
  generalize (if beVal (u.take 4) < 2 ^ 31 then beVal (u.take 4)
    else beVal (u.take 4) + 2 ^ m.bits - 2 ^ 32) = value at h
  by_cases hle : value > maxBodyLength
  · rw [if_pos hle] at h
    cases h
  · rw [if_neg hle] at h
    cases h
    exact Nat.le_of_not_lt hle

variable {env : WiEnv} {my : Wi}

theorem wiRecvTurn_length (hcrash : my.crashed = false) (hno : my.hasLength = false)
    (hu : 4 ≤ u.length) : wiRecvTurn env my u = lengthTurn my (wiParseLength env.machine u) := by
  rw [wiRecvTurn, if_neg (by rw [hcrash]; exact Bool.false_ne_true),
    if_pos ⟨by rw [hno]; exact Bool.false_ne_true, hu⟩]

theorem wiRecvTurn_packet (hcrash : my.crashed = false) (hhas : my.hasLength = true)
    (hu : my.bodyLength + 4 ≤ u.length) :
    wiRecvTurn env my u
      = packetTurn my.bodyLength (wiRecvPacket env my (u.take (my.bodyLength + 4))) := by
  rw [wiRecvTurn, if_neg (by rw [hcrash]; exact Bool.false_ne_true),
    if_neg (fun h => h.1 hhas), if_pos ⟨hhas, hu⟩]

theorem wiRecvTurn_cases (env : WiEnv) (my : Wi) (u : List UInt8) :
    (my.crashed = false ∧ my.hasLength = false ∧ 4 ≤ u.length) ∨
      (my.crashed = false ∧ my.hasLength = true ∧ my.bodyLength + 4 ≤ u.length) ∨
      (wiRecvTurn env my u = .wait my ∧ (my.crashed = false →
        u.length < if my.hasLength then my.bodyLength + 4 else 4)) := by
  cases hcrash : my.crashed with
  | true =>
    refine .inr (.inr ⟨?_, fun h => by cases h⟩)
    rw [wiRecvTurn, if_pos hcrash]
  | false =>
    cases hhas : my.hasLength with
    | false =>
      by_cases hu : 4 ≤ u.length
      · exact .inl ⟨rfl, rfl, hu⟩
      · refine .inr (.inr ⟨?_, fun _ => by simpa using hu⟩)
        rw [wiRecvTurn, if_neg (by rw [hcrash]; exact Bool.false_ne_true), if_neg (fun h => hu h.2),
          if_neg (fun h => by rw [hhas] at h; cases h.1)]
    | true =>
      by_cases hu : my.bodyLength + 4 ≤ u.length
      · exact .inr (.inl ⟨rfl, rfl, hu⟩)
      · refine .inr (.inr ⟨?_, fun _ => by simpa using hu⟩)
        rw [wiRecvTurn, if_neg (by rw [hcrash]; exact Bool.false_ne_true),
          if_neg (fun h => h.1 hhas), if_neg (fun h => hu h.2)]

theorem wiRecvTurn_append (h : ∀ s, wiRecvTurn env my u ≠ .wait s) (v : List UInt8) :
    wiRecvTurn env my (u ++ v) = wiRecvTurn env my u := by
  have hlong : ∀ k, k ≤ u.length → k ≤ (u ++ v).length := by
    intro k hk
    rw [length_append]
    omega
  rcases wiRecvTurn_cases env my u with ⟨hc, hno, hu⟩ | ⟨hc, hhas, hu⟩ | ⟨hwait, -⟩
  · rw [wiRecvTurn_length hc hno hu, wiRecvTurn_length hc hno (hlong _ hu), wiParseLength_append _ hu]
  · rw [wiRecvTurn_packet hc hhas hu, wiRecvTurn_packet hc hhas (hlong _ hu),
      take_append_of_le_length hu]
  · exact absurd hwait (h my)

variable {my' : Wi}

theorem wiRecvTurn_wait (h : wiRecvTurn env my u = .wait my') :
    my' = my ∧ (my.crashed = false → u.length < if my.hasLength then my.bodyLength + 4 else 4) := by
  rcases wiRecvTurn_cases env my u with ⟨hc, hno, hu⟩ | ⟨hc, hhas, hu⟩ | ⟨hwait, hshort⟩
  · rw [wiRecvTurn_length hc hno hu] at h
    generalize wiParseLength env.machine u = parsed at h
    rcases parsed with ⟨length, _ | e⟩ <;> cases h
  · rw [wiRecvTurn_packet hc hhas hu] at h
    generalize wiRecvPacket env my (u.take (my.bodyLength + 4)) = received at h
    rcases received with ⟨my1, _ | _⟩ <;> cases h
  · rw [hwait] at h
    cases h
    exact ⟨rfl, hshort⟩

theorem wiRecvTurn_go {n : Nat} (h : wiRecvTurn env my u = .go my' n) :
    n ≤ u.length ∧ LengthOk my' (u.drop n) ∧ wiRank my' (u.drop n) < wiRank my u := by
  rcases wiRecvTurn_cases env my u with ⟨hc, hno, hu⟩ | ⟨hc, hhas, hu⟩ | ⟨hwait, -⟩
  · rw [wiRecvTurn_length hc hno hu] at h
    rcases hparse : wiParseLength env.machine u with ⟨length, _ | e⟩
    · rw [hparse] at h
      cases h
      refine ⟨Nat.zero_le _, fun _ => wiParseLength_le hparse, ?_⟩
      rw [wiRank, wiRank, hno, drop_zero]
      exact Nat.lt_succ_self _
    · rw [hparse] at h
      cases h
  · rw [wiRecvTurn_packet hc hhas hu] at h
    generalize wiRecvPacket env my (u.take (my.bodyLength + 4)) = received at h
    rcases received with ⟨my1, _ | _⟩
    · cases h
    · cases h
      refine ⟨hu, (fun h => by cases h), ?_⟩
      rw [wiRank, wiRank, hhas, length_drop, Wi.done_hasLength]
      simp only [Bool.false_eq_true, if_false, if_true]
      omega
  · rw [hwait] at h
    cases h

theorem wiRecvTurn_halt {n : Nat} (h : wiRecvTurn env my u = .halt my' n) :
    n ≤ u.length ∧ LengthOk my' (u.drop n) := by
  rcases wiRecvTurn_cases env my u with ⟨hc, hno, hu⟩ | ⟨hc, hhas, hu⟩ | ⟨hwait, -⟩
  · rw [wiRecvTurn_length hc hno hu] at h
    generalize wiParseLength env.machine u = parsed at h
    rcases parsed with ⟨length, _ | e⟩
    · cases h
    · cases h
      refine ⟨hu, fun h => ?_⟩
      have hfalse : my.hasLength = true := h
      rw [hno] at hfalse
      cases hfalse
  · rw [wiRecvTurn_packet hc hhas hu] at h
    generalize wiRecvPacket env my (u.take (my.bodyLength + 4)) = received at h
    rcases received with ⟨my1, _ | _⟩
    · cases h
      exact ⟨hu, fun h => by cases h⟩
    · cases h
  · rw [hwait] at h
    cases h

theorem wiRecvTurn_stable (env : WiEnv) (limit : Nat) : Stable (wiRecvTurn env) LengthOk limit where
  append := by
    intro my u v h
    exact h
  wait := by
    intro my u my' hinv hturn
    obtain ⟨rfl, -⟩ := wiRecvTurn_wait hturn
    exact ⟨hinv, fun _ _ _ => rfl⟩
  go := by
    intro my u my' n _ hturn
    obtain ⟨hn, hok, -⟩ := wiRecvTurn_go hturn
    refine ⟨hn, hok, fun v _ => ?_⟩
    rw [wiRecvTurn_append (by rw [hturn]; intro s h; cases h), hturn]
  halt := by
    intro my u my' n _ hturn
    obtain ⟨hn, hok⟩ := wiRecvTurn_halt hturn
    refine ⟨hn, hok, fun v _ => ?_⟩
    rw [wiRecvTurn_append (by rw [hturn]; intro s h; cases h), hturn]

theorem wiRecvTurn_decreases (env : WiEnv) : Decreases (wiRecvTurn env) wiRank := by
  intro my u my' n hturn
  exact (wiRecvTurn_go hturn).2.2

/-! ## One packet -/

theorem length_wiPacket (data : List UInt8) : (wiPacket data).length = data.length + 4 := by
  rw [wiPacket, length_append, length_beBytes, Nat.add_comm]

theorem wiParseLength_wiPacket (m : Machine) (h : data.length ≤ maxBodyLength) (rest : List UInt8) :
    wiParseLength m (wiPacket data ++ rest) = (data.length, none) := by
  have hmax : maxBodyLength = 2 ^ 24 := rfl
  have hvalue : beVal ((wiPacket data ++ rest).take 4) = data.length := by
    rw [wiPacket, append_assoc, take_left' (length_beBytes _ _), beVal_beBytes (by omega)]
  have hsmall : data.length < 2 ^ 31 := by omega
  simp only [wiParseLength, hvalue]
  rw [if_pos hsmall, if_neg (by omega)]

variable {rest : List UInt8}

theorem drains_packet {my'' : Wi} {b : Bool} (hcrash : my.crashed = false)
    (hno : my.hasLength = false) (hlen : data.length ≤ maxBodyLength)
    (hpacket : wiRecvPacket env (my.expecting data.length) (wiPacket data) = (my', true))
    (hrest : rest ≠ []) (hrun : Drains (wiRecvTurn env) my'.done rest my'' u b) :
    Drains (wiRecvTurn env) my (wiPacket data ++ rest) my'' u b := by
  have hsize := length_wiPacket data
  have htake : (wiPacket data ++ rest).take (data.length + 4) = wiPacket data :=
    take_left' hsize
  have hdrop : (wiPacket data ++ rest).drop (data.length + 4) = rest := drop_left' hsize
  have hlong : data.length + 4 ≤ (wiPacket data ++ rest).length := by
    rw [length_append]
    omega
  have hfirst : wiRecvTurn env my (wiPacket data ++ rest)
      = .go (my.expecting data.length) 0 := by
    rw [wiRecvTurn_length hcrash hno (by omega), wiParseLength_wiPacket _ hlen]
    rfl
  have hsecond : wiRecvTurn env (my.expecting data.length)
      (wiPacket data ++ rest)
        = .go my'.done (data.length + 4) := by
    have hcrash' : (my.expecting data.length).crashed = false := hcrash
    rw [wiRecvTurn_packet hcrash' rfl hlong, Wi.expecting_bodyLength, htake, hpacket]
    rfl
  refine .more hfirst (append_ne_nil_of_right_ne_nil _ hrest) ?_
  refine .more hsecond ?_ ?_
  · rw [drop_zero, hdrop]
    exact hrest
  · rw [drop_zero, hdrop]
    exact hrun

theorem drains_last_packet {ok : Bool} (hcrash : my.crashed = false) (hno : my.hasLength = false)
    (hlen : data.length ≤ maxBodyLength)
    (hpacket : wiRecvPacket env (my.expecting data.length) (wiPacket data) = (my', ok)) :
    Drains (wiRecvTurn env) my (wiPacket data) my'.done []
      (!ok) := by
  have hsize := length_wiPacket data
  have hparse := wiParseLength_wiPacket env.machine hlen []
  rw [append_nil] at hparse
  have htake : (wiPacket data).take (data.length + 4) = wiPacket data := by
    rw [← hsize, take_length]
  have hdrop : (wiPacket data).drop (data.length + 4) = [] := by
    rw [← hsize, drop_length]
  have hfirst : wiRecvTurn env my (wiPacket data)
      = .go (my.expecting data.length) 0 := by
    rw [wiRecvTurn_length hcrash hno (by omega), hparse]
    rfl
  have hsecond : wiRecvTurn env (my.expecting data.length)
      (wiPacket data) = packetTurn data.length (my', ok) := by
    have hcrash' : (my.expecting data.length).crashed = false := hcrash
    rw [wiRecvTurn_packet hcrash' rfl (Nat.le_of_eq hsize.symm), Wi.expecting_bodyLength, htake,
      hpacket]
  refine .more hfirst ?_ ?_
  · rw [drop_zero]
    exact ne_nil_of_length_pos (by omega)
  · rw [drop_zero]
    cases ok with
    | true => exact .last hsecond hdrop
    | false =>
      rw [← hdrop]
      exact .halt hsecond

/-! ## One message -/

/-- Between two packets, with `sofar` of a message put together. -/
structure Wi.Collected (my : Wi) (isSim : Bool) (sofar : List UInt8) : Prop where
  sim : my.isSim = isSim
  running : my.crashed = false
  noLength : my.hasLength = false
  wf : my.partialBuf.Wf
  content : my.partialBuf.content = sofar

/-- What the callbacks are called with when a message is complete. -/
def messageCalls (env : WiEnv) (bytes packet : List UInt8) : List WiCall :=
  .fromBin bytes (fromBin env bytes) ::
    ((fromBin env bytes).elim [invalidPacket (packet.length - 4) packet] fun rpcDict =>
      [.recvPlist rpcDict])

theorem wiRecvPacket_wiPacket (env : WiEnv) (my : Wi) (hlen : data.length ≤ maxBodyLength) :
    wiRecvPacket env my (wiPacket data)
      = afterParse env data.length (wiPacket data) (wiParsePlist env my data) := by
  have hsize := length_wiPacket data
  have hparse := wiParseLength_wiPacket env.machine hlen []
  rw [append_nil] at hparse
  have hbody : ((wiPacket data).drop 4).take data.length = data := by
    rw [wiPacket, drop_left' (length_beBytes _ _), take_length]
  rw [wiRecvPacket, if_neg (by omega), hparse]
  dsimp only
  rw [hbody]

theorem afterParse_parseMessage (env : WiEnv) (my : Wi) (bytes packet : List UInt8) (buf : Cb) :
    ∃ ok, afterParse env (packet.length - 4) packet
        ({ (parseMessage env my bytes).1 with partialBuf := buf }, (parseMessage env my bytes).2)
      = ({ my with partialBuf := buf, calls := my.calls ++ messageCalls env bytes packet }, ok) := by
  rw [parseMessage, messageCalls]
  cases fromBin env bytes with
  | none => exact ⟨false, by simp [afterParse, Wi.call]⟩
  | some rpcDict => exact ⟨env.recvPlist rpcDict, by simp [afterParse, Wi.call]⟩

section Chunks

variable {env : WiEnv} {my : Wi} {sofar rpc : List UInt8}

theorem partialBuf_takes (hgrants : ∀ n, env.machine.grants n = true)
    (hmy : my.partialBuf.Wf ∧ my.partialBuf.content = sofar)
    (hlen : sofar.length + rpc.length < 2 ^ 32) :
    ∃ buf, cbEnsureCapacity env.machine my.partialBuf rpc.length = (buf, true) ∧
      ¬ buf.block.length < buf.tail + rpc.length ∧ (buf.put rpc).Wf ∧
      (buf.put rpc).content = sofar ++ rpc := by
  have hpow : 2 ^ 32 ≤ 2 ^ env.machine.bits := by
    rcases env.machine.bits_eq with h | h
    · rw [h]
    · rw [h]
      decide
  have hused := Cb.length_content hmy.1
  rw [hmy.2] at hused
  have hok := cbEnsureCapacity_ok hgrants my.partialBuf rpc.length
  have hkeeps := cbEnsureCapacity_keeps env.machine hmy.1 rpc.length
  obtain ⟨hroom, hmem⟩ := hkeeps.room hok (by omega)
  refine ⟨_, Prod.ext rfl hok, Nat.not_lt.mpr hroom, Cb.put_wf hkeeps.wf hmem hroom, ?_⟩
  rw [Cb.put_content hkeeps.wf hmem hroom, hkeeps.content, hmy.2]

theorem parseChunk_partial (hgrants : ∀ n, env.machine.grants n = true)
    (hmy : my.partialBuf.Wf ∧ my.partialBuf.content = sofar)
    (hlen : sofar.length + rpc.length < 2 ^ 32) :
    ∃ buf : Cb, buf.Wf ∧ buf.content = sofar ++ rpc ∧
      parseChunk env my true rpc = ({ my with partialBuf := buf }, .isPartial) := by
  obtain ⟨buf, htakes, hroom, hwf, hcontent⟩ := partialBuf_takes hgrants hmy hlen
  refine ⟨buf.put rpc, hwf, hcontent, ?_⟩
  rw [parseChunk, if_pos (.inl rfl), htakes]
  dsimp only
  rw [if_neg hroom, if_pos rfl]

theorem parseChunk_final (hgrants : ∀ n, env.machine.grants n = true)
    (hmy : my.partialBuf.Wf ∧ my.partialBuf.content = sofar)
    (hlen : sofar.length + rpc.length < 2 ^ 32) :
    ∃ buf : Cb, buf.Wf ∧ buf.content = [] ∧ parseChunk env my false rpc
      = ({ (parseMessage env my (sofar ++ rpc)).1 with partialBuf := buf },
          (parseMessage env my (sofar ++ rpc)).2) := by
  have hused := Cb.length_content hmy.1
  rw [hmy.2] at hused
  by_cases hnil : sofar = []
  · refine ⟨my.partialBuf, hmy.1, hmy.2.trans hnil, ?_⟩
    have hzero : ¬ (false = true ∨ my.partialBuf.tail - my.partialBuf.head ≠ 0) := by
      rw [hnil, length_nil] at hused
      simp [← hused]
    rw [parseChunk, if_neg hzero, hnil, nil_append, parseMessage]
    cases fromBin env rpc <;> rfl
  · have hpos : false = true ∨ my.partialBuf.tail - my.partialBuf.head ≠ 0 := by
      rw [← hused]
      exact .inr (fun h => hnil (eq_nil_of_length_eq_zero h))
    obtain ⟨buf, htakes, hroom, hwf, hcontent⟩ := partialBuf_takes hgrants hmy hlen
    refine ⟨cbClear (buf.put rpc), ⟨Nat.le_refl _, Nat.zero_le _⟩,
      Cb.content_of_head_eq_tail rfl, ?_⟩
    rw [parseChunk, if_pos hpos, htakes]
    dsimp only
    rw [if_neg hroom, if_neg Bool.false_ne_true, hcontent, parseMessage, parseMessage]
    cases fromBin env (sofar ++ rpc) <;> rfl

theorem wiParsePlist_wiDict (sender : WiEnv) {i : Nat} {isPartial : Bool} {data : List UInt8}
    (hsim : my.isSim = false) (hrpc : rpc.length ≤ maxRpcLen)
    (h : plistToBin sender.build sender.narrow (wiDict sender i isPartial rpc) = some data) :
    wiParsePlist env my data = parseChunk env my isPartial rpc := by
  have hread := fromBin_wiDict sender env hrpc h
  rw [wiParsePlist, if_neg (by rw [hsim]; exact Bool.false_ne_true), hread]
  have hdict : (wiDict sender i isPartial rpc).toPlist = .dict
      [.scalar (.key (wirKey isPartial)) (wirKey isPartial).length, .scalar (.data rpc) rpc.length] :=
    by simp only [wiDict, Node.toPlist, toPlists]
  have hdata : getDataVal (.scalar (.data rpc) rpc.length) = some rpc := by
    rw [getDataVal, take_length]
  rw [hdict]
  cases isPartial with
  | true =>
    have hfinal : streq wirFinalMessageKey wirPartialMessageKey = false := by decide
    have hpartial : streq wirPartialMessageKey wirPartialMessageKey = true := by decide
    simp only [dictGetItem, scanPairs, wirKey, if_true, hfinal, hpartial, Bool.false_eq_true,
      if_false, hdata]
  | false =>
    have hfinal : streq wirFinalMessageKey wirFinalMessageKey = true := by decide
    simp only [dictGetItem, scanPairs, wirKey, Bool.false_eq_true, if_false, hfinal, if_true, hdata]

end Chunks

variable {fuel : Nat} {packets : List (List UInt8)}

theorem wiSendLoop_success {sender : WiEnv}
    (h : wiSendLoop sender false (fuel + 1) i rest = (packets, .success)) :
    (maxRpcLen < rest.length ∧ ∃ data packets',
      plistToBin sender.build sender.narrow (wiDict sender i true (rest.take maxRpcLen)) = some data ∧
        wiSendLoop sender false fuel (i + 1) (rest.drop maxRpcLen) = (packets', .success) ∧
        packets = wiPacket data :: packets') ∨
      (rest.length ≤ maxRpcLen ∧ ∃ data,
        plistToBin sender.build sender.narrow (wiDict sender i false rest) = some data ∧
          packets = [wiPacket data]) := by
  rw [wiSendLoop] at h
  simp only [Bool.not_false, Bool.true_and, decide_eq_true_eq, Bool.false_eq_true, if_false] at h
  by_cases hpart : rest.length > maxRpcLen
  · simp only [hpart, decide_true, if_true] at h
    split at h
    · cases h
    · next data hdata =>
        split at h
        · cases h
        · split at h
          · cases h
          · split at h
            · cases h
            · generalize hmore : wiSendLoop sender false fuel (i + 1) (rest.drop maxRpcLen) = more at h
              obtain ⟨packets', status⟩ := more
              cases h
              exact .inl ⟨hpart, data, packets', hdata, rfl, rfl⟩
  · simp only [hpart, decide_false, if_false] at h
    split at h
    · cases h
    · next data hdata =>
        split at h
        · cases h
        · split at h
          · cases h
          · split at h
            · cases h
            · cases h
              exact .inr ⟨by omega, data, hdata, rfl⟩

theorem afterParse_wiPacket (env : WiEnv) (my : Wi) (bytes data : List UInt8) (buf : Cb) :
    ∃ ok, afterParse env data.length (wiPacket data)
        ({ (parseMessage env my bytes).1 with partialBuf := buf }, (parseMessage env my bytes).2)
      = ({ my with partialBuf := buf, calls := my.calls ++ messageCalls env bytes (wiPacket data) },
          ok) := by
  have hafter := afterParse_parseMessage env my bytes (wiPacket data) buf
  rwa [show (wiPacket data).length - 4 = data.length by rw [length_wiPacket]; omega] at hafter

/-- **The chunks of a message.**  Packet after packet, the message is put together. -/
theorem wiSendLoop_drains (sender : WiEnv) (hgrants : ∀ n, env.machine.grants n = true)
    {sofar : List UInt8} (hsent : wiSendLoop sender false fuel i rest = (packets, .success))
    (hmy : my.Collected false sofar) (hlen : sofar.length + rest.length < 2 ^ 32) :
    ∃ my' b packet, Drains (wiRecvTurn env) my packets.flatten my' [] b ∧ my'.Collected false [] ∧
      my'.calls = my.calls ++ messageCalls env (sofar ++ rest) packet ∧ packets.flatten ≠ [] := by
  have hmax : maxBodyLength = 2 ^ 24 := rfl
  have hne : ∀ data more, wiPacket data ++ more ≠ [] := by
    intro data more
    refine append_ne_nil_of_left_ne_nil (ne_nil_of_length_pos ?_) _
    rw [length_wiPacket]
    omega
  induction fuel generalizing i rest sofar packets my with
  | zero => cases hsent
  | succ fuel ih =>
    rcases wiSendLoop_success hsent with ⟨hpart, data, packets', hdata, hmore, rfl⟩ |
      ⟨hlast, data, hdata, rfl⟩
    · have hrpc : (rest.take maxRpcLen).length ≤ maxRpcLen := length_take_le _ _
      have hsmall := length_wiDict hrpc hdata
      have hmy' : (my.expecting data.length).partialBuf.Wf ∧
          (my.expecting data.length).partialBuf.content = sofar := ⟨hmy.wf, hmy.content⟩
      have hsim : (my.expecting data.length).isSim = false := hmy.sim
      have htotal : sofar.length + (rest.take maxRpcLen).length < 2 ^ 32 := by
        rw [length_take]
        omega
      obtain ⟨buf, hwf, hcontent, hparse⟩ := parseChunk_partial hgrants hmy' htotal
      have hsize : data.length ≤ maxBodyLength := by omega
      have hpacket := wiRecvPacket_wiPacket env (my.expecting data.length) hsize
      rw [wiParsePlist_wiDict sender hsim hrpc hdata, hparse] at hpacket
      have hnext : Wi.Collected ({ my.expecting data.length with partialBuf := buf } : Wi).done false
          (sofar ++ rest.take maxRpcLen) := ⟨hmy.sim, hmy.running, rfl, hwf, hcontent⟩
      obtain ⟨my', b, packet, hrun, hidle, hcalls, hrest⟩ := ih hmore hnext (by
        rw [length_append, length_take, length_drop]
        omega)
      rw [append_assoc, take_append_drop] at hcalls
      refine ⟨my', b, packet, ?_, hidle, hcalls, ?_⟩
      · rw [flatten_cons]
        exact drains_packet hmy.running hmy.noLength hsize hpacket hrest hrun
      · rw [flatten_cons]
        exact hne _ _
    · have hsmall := length_wiDict hlast hdata
      have hmy' : (my.expecting data.length).partialBuf.Wf ∧
          (my.expecting data.length).partialBuf.content = sofar := ⟨hmy.wf, hmy.content⟩
      have hsim : (my.expecting data.length).isSim = false := hmy.sim
      obtain ⟨buf, hwf, hcontent, hparse⟩ := parseChunk_final hgrants hmy' hlen
      have hsize : data.length ≤ maxBodyLength := by omega
      have hpacket := wiRecvPacket_wiPacket env (my.expecting data.length) hsize
      rw [wiParsePlist_wiDict sender hsim hlast hdata, hparse] at hpacket
      obtain ⟨ok, hafter⟩ := afterParse_wiPacket env (my.expecting data.length) (sofar ++ rest)
        data buf
      rw [hafter] at hpacket
      have hrun := drains_last_packet hmy.running hmy.noLength hsize hpacket
      have hflat : [wiPacket data].flatten = wiPacket data := by
        rw [flatten_cons, flatten_nil, append_nil]
      rw [hflat]
      refine ⟨_, _, wiPacket data, hrun, ⟨hmy.sim, hmy.running, rfl, hwf, hcontent⟩, rfl, ?_⟩
      have hnil := hne data []
      rwa [append_nil] at hnil

theorem wiSendLoop_sim {sender : WiEnv}
    (h : wiSendLoop sender true (fuel + 1) i rest = (packets, .success)) :
    packets = [wiPacket rest] := by
  rw [wiSendLoop] at h
  simp only [Bool.not_true, Bool.false_and, Bool.false_eq_true, if_false, if_true] at h
  split at h
  · cases h
  · split at h
    · cases h
    · split at h
      · cases h
      · cases h
        rfl

theorem wiSendLoop_sim_drains (hmy : my.Collected true []) (hlen : rest.length ≤ maxBodyLength) :
    ∃ my' b packet, Drains (wiRecvTurn env) my (wiPacket rest) my' [] b ∧ my'.Collected true [] ∧
      my'.calls = my.calls ++ messageCalls env rest packet := by
  have hpacket := wiRecvPacket_wiPacket env (my.expecting rest.length) hlen
  have hsim : (my.expecting rest.length).isSim = true := hmy.sim
  have hparse : wiParsePlist env (my.expecting rest.length) rest
      = ({ (parseMessage env (my.expecting rest.length) rest).1 with partialBuf := my.partialBuf },
          (parseMessage env (my.expecting rest.length) rest).2) := by
    rw [wiParsePlist, if_pos hsim, parseMessage]
    cases fromBin env rest <;> rfl
  obtain ⟨ok, hafter⟩ := afterParse_wiPacket env (my.expecting rest.length) rest rest my.partialBuf
  rw [hparse, hafter] at hpacket
  refine ⟨_, !ok, wiPacket rest, drains_last_packet hmy.running hmy.noLength hlen hpacket, ?_, rfl⟩
  exact ⟨hmy.sim, hmy.running, rfl, hmy.wf, hmy.content⟩

theorem reassembled_messageCalls (env : WiEnv) (calls : List WiCall) (bytes packet : List UInt8) :
    reassembled (calls ++ messageCalls env bytes packet) = reassembled calls ++ [bytes] := by
  rw [reassembled, filterMap_append, messageCalls]
  cases fromBin env bytes <;> rfl

theorem delivered_messageCalls (env : WiEnv) (calls : List WiCall) (bytes packet : List UInt8) :
    delivered (calls ++ messageCalls env bytes packet)
      = delivered calls ++ (fromBin env bytes).toList := by
  rw [delivered, filterMap_append, messageCalls]
  cases fromBin env bytes <;> rfl

/-! ## The stream in pieces -/

/-- What of a receiver can be seen: its state, and the bytes it has not used. -/
def wiView (w : Wi × Cb) : Wi × List UInt8 := (w.1, w.2.content)

theorem wiOnRecv_view (hgrants : ∀ n, env.machine.grants n = true) {w : Wi × Cb} (hwf : w.2.Wf)
    (buf : List UInt8) (hlen : w.2.content.length + buf.length < 2 ^ env.machine.bits) :
    (wiOnRecv env w buf).2.Wf ∧
      wiView (wiOnRecv env w buf) = receive (wiRecvTurn env) wiRank (wiView w) buf := by
  rw [wiOnRecv, receive]
  by_cases hnil : buf.isEmpty = true
  · rw [if_pos hnil, if_pos hnil]
    exact ⟨hwf, rfl⟩
  · rw [if_neg hnil, if_neg hnil]
    obtain ⟨cb1, cb2, hbegin, hinput, hend, hwf2, hcontent⟩ :=
      cb_receive (wiRecvTurn env) wiRank w.1 hgrants hwf hlen
    have hloop : wiRecvLoop env w.1 cb1.input = drainAll (wiRecvTurn env) wiRank w.1 cb1.input := rfl
    rw [hbegin]
    dsimp only
    rw [hloop, hend]
    refine ⟨hwf2, Prod.ext ?_ hcontent⟩
    rw [hinput]
    rfl

theorem receive_short {w : Wi × List UInt8} (hinv : LengthOk w.1 w.2) {c c' : List UInt8}
    (hc : c ≠ []) (hc' : c' ≠ []) (hused : (receive (wiRecvTurn env) wiRank w (c ++ c')).2 = []) :
    (receive (wiRecvTurn env) wiRank w c).2.length ≤ maxBodyLength + 4 := by
  have hst := wiRecvTurn_stable env ((w.2 ++ (c ++ c')).length + 1)
  have hrank := wiRecvTurn_decreases env
  have hrun := drains_of_drained hst hrank hinv hc hc' hused (Nat.lt_succ_self _)
  have hok := hrun.inv hst (hst.append c hinv)
  have htwo := receive_append hst hrank hinv c c' (.inr hused) (Nat.lt_succ_self _)
  rcases hrun.waits with hnil | ⟨t, hwait⟩
  · rw [hnil]
    exact Nat.zero_le _
  · obtain ⟨rfl, hshort⟩ := wiRecvTurn_wait hwait
    cases hcrash : (receive (wiRecvTurn env) wiRank w c).1.crashed with
    | false =>
      have hlt := hshort hcrash
      split at hlt
      · next hhas =>
          have hle := hok hhas
          omega
      · omega
    | true =>
      -- a program that has crashed uses nothing
      exfalso
      have hne' : ¬ c'.isEmpty = true := by simpa using hc'
      have hstuck : ∀ u, wiRecvTurn env (receive (wiRecvTurn env) wiRank w c).1 u
          = .wait (receive (wiRecvTurn env) wiRank w c).1 := by
        intro u
        rw [wiRecvTurn, if_pos hcrash]
      rw [← htwo, receive, if_neg hne', drainAll, drain, hstuck] at hused
      exact hc' (append_eq_nil_iff.mp hused).2

theorem wiOnRecv_foldl (hgrants : ∀ n, env.machine.grants n = true) (chunks : List (List UInt8))
    {w : Wi × Cb} (hwf : w.2.Wf) (hinv : LengthOk w.1 w.2.content)
    (hshort : w.2.content.length ≤ maxBodyLength + 4)
    (hsizes : ∀ c ∈ chunks, c.length < 2 ^ (env.machine.bits - 1))
    (hused : (receive (wiRecvTurn env) wiRank (wiView w) chunks.flatten).2 = []) :
    (chunks.foldl (wiOnRecv env) w).2.Wf ∧ wiView (chunks.foldl (wiOnRecv env) w)
      = receive (wiRecvTurn env) wiRank (wiView w) chunks.flatten := by
  have hmax : maxBodyLength = 2 ^ 24 := rfl
  have hroom : maxBodyLength + 4 + 2 ^ (env.machine.bits - 1) ≤ 2 ^ env.machine.bits := by
    rcases env.machine.bits_eq with h | h
    · rw [h]
      decide
    · rw [h]
      decide
  induction chunks generalizing w with
  | nil => exact ⟨hwf, rfl⟩
  | cons c chunks ih =>
    have hst := wiRecvTurn_stable env (((wiView w).2 ++ (c ++ chunks.flatten)).length + 1)
    have hrank := wiRecvTurn_decreases env
    have hsize := hsizes c mem_cons_self
    obtain ⟨hwf', hview⟩ := wiOnRecv_view hgrants hwf c (by omega)
    rw [flatten_cons] at hused
    have htwo := receive_append hst hrank hinv c chunks.flatten (.inr hused) (Nat.lt_succ_self _)
    rw [← hview] at htwo
    have hinv0 : LengthOk (wiView w).1 (wiView w).2 := hinv
    have hinv' := receive_inv hst hrank hinv0 c
    rw [← hview] at hinv'
    have hshort' : (wiOnRecv env w c).2.content.length ≤ maxBodyLength + 4 := by
      have hcontent : (receive (wiRecvTurn env) wiRank (wiView w) c).2
          = (wiOnRecv env w c).2.content := by
        rw [← hview]
        rfl
      by_cases hc : c = []
      · rw [hc]
        exact hshort
      by_cases hc' : chunks.flatten = []
      · rw [hc', append_nil] at hused
        rw [← hcontent, hused]
        exact Nat.zero_le _
      · rw [← hcontent]
        exact receive_short hinv hc hc' hused
    rw [← htwo] at hused
    rw [foldl_cons, flatten_cons, ← htwo]
    exact ih hwf' hinv' hshort' (fun d hd => hsizes d (mem_cons_of_mem c hd)) hused

theorem wiSendPlist_drains (sender : WiEnv) {env : WiEnv}
    (hgrants : ∀ n, env.machine.grants n = true) {isSim : Bool} {rpcDict : Node}
    {rpcBin : List UInt8} {packets : List (List UInt8)} {my : Wi}
    (hbin : plistToBin sender.build sender.narrow rpcDict = some rpcBin)
    (hlen : rpcBin.length < 2 ^ 32) (hsim : isSim = true → rpcBin.length ≤ 2 ^ 24)
    (hsent : wiSendPlist sender isSim rpcDict = (packets, .success))
    (hmy : my.Collected isSim []) :
    ∃ my' b packet, Drains (wiRecvTurn env) my packets.flatten my' [] b ∧ my'.Collected isSim [] ∧
      my'.calls = my.calls ++ messageCalls env rpcBin packet ∧ packets.flatten ≠ [] := by
  simp only [wiSendPlist, hbin, getD_some] at hsent
  cases isSim with
  | false =>
    have hrun := wiSendLoop_drains sender hgrants hsent hmy (by rw [length_nil]; omega)
    rwa [nil_append] at hrun
  | true =>
    obtain rfl := wiSendLoop_sim hsent
    obtain ⟨my', b, packet, hrun, hidle, hcalls⟩ := wiSendLoop_sim_drains hmy (hsim rfl)
    have hflat : [wiPacket rpcBin].flatten = wiPacket rpcBin := by
      rw [flatten_cons, flatten_nil, append_nil]
    rw [hflat]
    refine ⟨my', b, packet, hrun, hidle, hcalls, ne_nil_of_length_pos ?_⟩
    rw [length_wiPacket]
    omega

/-- **Messages.**  However its packets are cut, a message is put together exactly, once, and what it
stands for is delivered, once; nothing is left over.  In the build of `configure`, and in each build
for a small file, what is delivered is the plist that was sent. -/
theorem wiOnRecv_wiSendPlist (sender env : WiEnv) (hgrants : ∀ n, env.machine.grants n = true)
    (isSim : Bool) (rpcDict : Node) (rpcBin : List UInt8) (packets chunks : List (List UInt8))
    (my : Wi) (cb : Cb) (hbin : plistToBin sender.build sender.narrow rpcDict = some rpcBin)
    (hlen : rpcBin.length < 2 ^ 32) (hsim : isSim = true → rpcBin.length ≤ 2 ^ 24)
    (hsent : wiSendPlist sender isSim rpcDict = (packets, .success))
    (hchunks : chunks.flatten = packets.flatten)
    (hsizes : ∀ c ∈ chunks, c.length < 2 ^ (env.machine.bits - 1))
    (hmy : my.Collected isSim []) (hwf : cb.Wf) (hcb : cb.content = []) :
    (chunks.foldl (wiOnRecv env) (my, cb)).1.Collected isSim [] ∧
      (chunks.foldl (wiOnRecv env) (my, cb)).2.Wf ∧
      (chunks.foldl (wiOnRecv env) (my, cb)).2.content = [] ∧
      reassembled (chunks.foldl (wiOnRecv env) (my, cb)).1.calls = reassembled my.calls ++ [rpcBin] ∧
      delivered (chunks.foldl (wiOnRecv env) (my, cb)).1.calls
        = delivered my.calls ++ (fromBin env rpcBin).toList ∧
      (rpcDict.ValueOk → rpcDict.addresses.Nodup → env.build = sender.build →
        sender.build = .configured ∨ rpcBin.length < 2 ^ 16 →
          fromBin env rpcBin = some rpcDict.toPlist) := by
  obtain ⟨my', b, packet, hrun, hidle, hcalls, hne⟩ :=
    wiSendPlist_drains sender hgrants hbin hlen hsim hsent hmy
  have hview : wiView (my, cb) = (my, []) := by rw [wiView, hcb]
  have hwhole : receive (wiRecvTurn env) wiRank (wiView (my, cb)) chunks.flatten = (my', []) := by
    rw [hchunks, hview]
    exact receive_eq_of_drains (wiRecvTurn_decreases env) hne hrun
  have hinv : LengthOk my cb.content := by
    intro h
    rw [hmy.noLength] at h
    cases h
  obtain ⟨hwf', hfold⟩ := wiOnRecv_foldl hgrants chunks (w := (my, cb)) hwf hinv
    (by rw [hcb]; exact Nat.zero_le _) hsizes (by rw [hwhole])
  rw [hwhole] at hfold
  obtain ⟨hstate, hcontent⟩ := Prod.ext_iff.mp hfold
  have hstate' : (chunks.foldl (wiOnRecv env) (my, cb)).1 = my' := hstate
  rw [hstate']
  refine ⟨hidle, hwf', hcontent, ?_, ?_, fun hok haddr hbuild hsize => ?_⟩
  · rw [hcalls, reassembled_messageCalls]
  · rw [hcalls, delivered_messageCalls]
  · obtain ⟨bytes, hbytes, hread⟩ := plistFromBin_of_plistToBin sender.build sender.narrow env.widen
      hok haddr
    rw [hbin] at hbytes
    obtain rfl := some.inj hbytes
    obtain ⟨calls, -, hcallsOf⟩ := hread hlen hsize env.base env.base_lt
    rw [fromBin, hbuild, hcallsOf _ (Nat.lt_succ_self _)]

/-- Memory enough, and callbacks that succeed. -/
def quietWiEnv : WiEnv where
  machine := .generous
  build := .configured
  narrow _ := none
  widen := id
  base := 4096
  base_lt := by decide
  nodes _ k := 8192 + 16 * k
  nodes_inj _ := by
    intro a b h
    apply Fin.ext
    simpa using h
  sendPacket _ := true
  recvPlist _ := true

/-- A receiver to which nothing was sent yet. -/
def wiNew (isSim : Bool) : Wi := ⟨isSim, cbNew, false, 0, false, []⟩

theorem wiNew_collected (isSim : Bool) : (wiNew isSim).Collected isSim [] :=
  ⟨rfl, rfl, rfl, cbNew_wf, rfl⟩

/-- A dictionary with one entry, and its file. -/
def oneEntry : Node := .dict 4096 [.scalar 4112 (.key (ascii "k")) 1, .scalar 4128 (.boolean 1) 1]

def oneEntryBin : List UInt8 :=
  ascii "bplist00" ++ [209, 1, 2, 81, 107, 9, 8, 11, 13] ++ List.replicate 6 0 ++ [1, 1] ++
    beBytes 8 3 ++ beBytes 8 0 ++ beBytes 8 14

theorem wiOnRecv_wiSendPlist_oneEntry : ∃ packets,
    wiSendPlist quietWiEnv false oneEntry = (packets, .success) ∧
      reassembled ((packets.flatten.map fun b => [b]).foldl (wiOnRecv quietWiEnv)
        (wiNew false, cbNew)).1.calls = [oneEntryBin] := by
  have hstatus : (wiSendPlist quietWiEnv false oneEntry).2 = .success := by decide +kernel
  generalize hsent : wiSendPlist quietWiEnv false oneEntry = sent at hstatus
  obtain ⟨packets, status⟩ := sent
  obtain rfl : status = .success := hstatus
  have hrun := wiOnRecv_wiSendPlist quietWiEnv quietWiEnv (fun _ => rfl) false oneEntry oneEntryBin
    packets (packets.flatten.map fun b => [b]) (wiNew false) cbNew (by decide +kernel) (by decide)
    (fun h => by cases h) hsent (by rw [← flatMap_def, flatMap_singleton'])
    (by
      intro c hc
      obtain ⟨b, -, rfl⟩ := mem_map.mp hc
      change 1 < 2 ^ 63
      decide)
    (wiNew_collected false) cbNew_wf rfl
  exact ⟨packets, rfl, hrun.2.2.2.1⟩

/-! ## Messages that are too long -/

theorem wiOnRecv_oversized (hgrants : ∀ n, env.machine.grants n = true)
    (hcrash : my.crashed = false) (hno : my.hasLength = false) (hmin : maxBodyLength < data.length)
    (hmax : data.length < 2 ^ 31) :
    (wiOnRecv env (my, cbNew) (wiPacket data)).1.calls
      = my.calls ++ [.onError (.invalidPacketHeader (beBytes 4 data.length) data.length)] := by
  have hsize := length_wiPacket data
  have hpow : 2 ^ 32 ≤ 2 ^ env.machine.bits := by
    rcases env.machine.bits_eq with h | h
    · rw [h]
    · rw [h]
      decide
  have hne : wiPacket data ≠ [] := ne_nil_of_length_pos (by omega)
  have htake : (wiPacket data).take 4 = beBytes 4 data.length := take_left' (length_beBytes _ _)
  have hparse : wiParseLength env.machine (wiPacket data)
      = (data.length, some (.invalidPacketHeader (beBytes 4 data.length) data.length)) := by
    simp only [wiParseLength, htake]
    rw [beVal_beBytes (show data.length < 256 ^ 4 by omega), if_pos hmax, if_pos hmin]
  have hturn : wiRecvTurn env my (wiPacket data) = .halt
      (my.call (.onError (.invalidPacketHeader (beBytes 4 data.length) data.length))) 4 := by
    rw [wiRecvTurn_length hcrash hno (by omega), hparse]
    rfl
  have hview := (wiOnRecv_view (w := (my, cbNew)) hgrants cbNew_wf (wiPacket data) (by
    change 0 + (wiPacket data).length < _
    omega)).2
  have hrun := receive_eq_of_drains (w := wiView (my, cbNew)) (wiRecvTurn_decreases env) hne
    (Drains.halt hturn)
  rw [hrun] at hview
  exact congrArg Wi.calls (Prod.ext_iff.mp hview).1

theorem length_plistToBin_data (build : Build) (narrow : Narrow) (address : Nat) (buff : List UInt8) :
    ∃ bytes, plistToBin build narrow (.scalar address (.data buff) buff.length) = some bytes ∧
      buff.length < bytes.length ∧ bytes.length ≤ buff.length + 58 := by
  have hok : (Node.scalar address (.data buff) buff.length).ValueOk := by
    simp only [Node.ValueOk, Node.ValueIs, ScalarOk]
  have haddr : (Node.scalar address (.data buff) buff.length).addresses.Nodup := nodup_singleton _
  obtain ⟨ser, hrun, hser⟩ := serializePlist_serialized hok.hashes haddr
  obtain ⟨bytes, hbytes, -⟩ := hser.plistToBin_eq build narrow hrun
  have hwrite : ∀ refSize, writeNode build narrow ser.refTable refSize
      (.scalar address (.data buff) buff.length)
        = some (writeMarker BPLIST_DATA buff.length ++ buff) := by
    intro refSize
    have hmark : (if BPLIST_UNICODE = BPLIST_DATA then buff.length <<< 1 else buff.length)
        = buff.length := if_neg (by decide)
    simp only [writeNode, writeScalar, writeData, writeRawData, hmark, take_length]
  have hmin := hser.length_le_plistToBin build narrow hrun (hwrite _) hbytes
  have hmark := length_writeMarker_le BPLIST_DATA buff.length
  have hcount := serializePlist_length _ hrun
  have hnodes : (Node.scalar address (.data buff) buff.length).nodes.length = 1 := by
    rw [Node.nodes, length_singleton]
  rw [hnodes, length_nil] at hcount
  have hlong := hser.length_plistToBin_le (k := 10 + buff.length) build narrow hrun (by
    intro node hnode bs hbs
    rw [Node.nodes, mem_singleton] at hnode
    subst hnode
    rw [hwrite] at hbs
    rw [← some.inj hbs, length_append]
    omega) hbytes
  have hmul := Nat.mul_le_mul_right (10 + buff.length + 8) hcount
  rw [length_append] at hmin
  refine ⟨bytes, hbytes, ?_, ?_⟩
  · omega
  · omega

/-- **Too long for a simulator.**  The message is sent, and taken for a bad packet. -/
theorem oversized_message_rejected : ∃ rpcDict rpcBin packets,
    plistToBin quietWiEnv.build quietWiEnv.narrow rpcDict = some rpcBin ∧ rpcBin.length < 2 ^ 32 ∧
      wiSendPlist quietWiEnv true rpcDict = (packets, .success) ∧
      reassembled (wiOnRecv quietWiEnv (wiNew true, cbNew) packets.flatten).1.calls = [] := by
  obtain ⟨buff, hbuff⟩ : ∃ buff : List UInt8, buff.length = 2 ^ 24 :=
    ⟨List.replicate (2 ^ 24) 0, length_replicate⟩
  obtain ⟨rpcBin, hbin, hmin, hmax⟩ := length_plistToBin_data quietWiEnv.build quietWiEnv.narrow 4096
    buff
  rw [hbuff] at hmin hmax
  have hsent : wiSendPlist quietWiEnv true (.scalar 4096 (.data buff) buff.length)
      = ([wiPacket rpcBin], .success) := by
    have hfits : ¬ 2 ^ 32 ≤ rpcBin.length + 4 := by omega
    have hgrants : quietWiEnv.machine.grants ((rpcBin.length + 4) % 2 ^ 32) = true := rfl
    have hsend : quietWiEnv.sendPacket (wiPacket rpcBin) = true := rfl
    simp only [wiSendPlist, hbin, getD_some, wiSendLoop, Bool.not_true, Bool.false_and,
      Bool.false_eq_true, if_false, if_true]
    rw [if_neg (not_not.mpr hgrants), if_neg hfits, if_neg (not_not.mpr hsend)]
  refine ⟨_, rpcBin, _, hbin, by omega, hsent, ?_⟩
  have hflat : [wiPacket rpcBin].flatten = wiPacket rpcBin := by
    rw [flatten_cons, flatten_nil, append_nil]
  rw [hflat, wiOnRecv_oversized (fun _ => rfl) rfl rfl hmin (by omega)]
  rfl

end IDeviceStack.WebkitProxy
