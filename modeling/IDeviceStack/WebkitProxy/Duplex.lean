/-
# `WebkitProxy.Duplex` — sending and receiving on one connection

`ws_send_frame` and the receive loop work on the same `struct ws_private`, and
`continued_opcode` is one field for both.  A `Link` is a connection with the bytes
that have arrived; frames are sent and turns of the receive loop taken in any
order.

* A call of `ws_on_recv` is bytes that arrive and some turns (`wsOnRecv_turns`).
* Next to a run stand the two halves of it: the connection that receives the same
  bytes and sends nothing, and the one on which `ws_send_frame` is called as often,
  with the same arguments, and that receives nothing.

**Proved here.**  `run_apart`.
-/
import IDeviceStack.WebkitProxy.Chunking

namespace IDeviceStack.WebkitProxy

open Lib List

/-- A connection, and the bytes that it has not used yet. -/
structure Link where
  ws : Ws
  unread : List UInt8

inductive LinkAct where
  /-- A call of `ws_send_frame`. -/
  | send (a : SendFrame)
  | arrive (bytes : List UInt8)
  /-- One turn of the receive loop. -/
  | turn

namespace Link

/-- A connection behind the handshake. -/
def start : Link := ⟨wsUpgraded, []⟩

def step (env : WsEnv) (l : Link) : LinkAct → Link
  | .send a => if l.ws.state = .crashed then l else { l with ws := wsSendFrame env l.ws a }
  | .arrive bytes => { l with unread := l.unread ++ bytes }
  | .turn =>
    match recvTurn env l.ws l.unread with
    | .wait ws => { l with ws := ws }
    | .go ws n => ⟨ws, l.unread.drop n⟩
    | .halt ws n => ⟨ws, l.unread.drop n⟩

def run (env : WsEnv) (l : Link) (acts : List LinkAct) : Link := acts.foldl (step env) l

end Link

/-! ## The two halves of a run -/

/-- The frames that `on_frame` was told. -/
def framesOf (calls : List WsCall) : List Frame :=
  calls.filterMap fun c => match c with
    | .onFrame frame => some frame
    | _ => none

/-- The frames that went to `send_data`. -/
def sentOf (calls : List WsCall) : List (List UInt8) :=
  calls.filterMap fun c => match c with
    | .sendData bytes => some bytes
    | _ => none

/-- A callback that answers nothing. -/
def WsEnv.mute (env : WsEnv) : WsEnv := { env with answers := fun _ => [] }

def LinkAct.isSend : LinkAct → Bool
  | .send _ => true
  | _ => false

/-- The connection that only receives. -/
def receivingHalf (env : WsEnv) (acts : List LinkAct) : Link :=
  Link.run env.mute .start (acts.filter fun act => !act.isSend)

/-- The calls of `ws_send_frame` in one step, those of `on_frame` included. -/
def sendsBy (env : WsEnv) (l : Link) : LinkAct → List SendFrame
  | .send a => [a]
  | .arrive _ => []
  | .turn =>
    (framesOf ((l.step env .turn).ws.calls.drop l.ws.calls.length)).flatMap env.answers

def sendsIn (env : WsEnv) (l : Link) : List LinkAct → List SendFrame
  | [] => []
  | act :: acts => sendsBy env l act ++ sendsIn env (l.step env act) acts

/-- One call after the other. -/
def sendAll (env : WsEnv) (ws : Ws) (sends : List SendFrame) : Ws :=
  sends.foldl (fun ws a => if ws.state = .crashed then ws else wsSendFrame env ws a) ws

/-- The connection that only sends. -/
def sendingHalf (env : WsEnv) (acts : List LinkAct) : Ws :=
  sendAll env wsUpgraded (sendsIn env .start acts)

/-- The opcode on the wire: `opcode2` of `ws_send_frame`. -/
def wireOpcode (ws : Ws) (a : SendFrame) : UInt8 :=
  if ¬ isControl a.opcode ∧ ws.continuedOpcode ≠ 0 then opcodeContinuation else a.opcode

/-- The last message that was sent is at its end. -/
def messageOver (sends : List SendFrame) : Bool :=
  match (sends.filter fun a => !isControl a.opcode).getLast? with
  | some a => a.isFin
  | none => true

/-- A run in which neither direction can tell that the other one is there. -/
structure Apart (env : WsEnv) (acts : List LinkAct) : Prop where
  /-- The frames that would be accepted next. -/
  accepts : ∀ b0 b1, headerError (Link.run env .start acts).ws.continuedOpcode b0 b1 =
    headerError (receivingHalf env acts).ws.continuedOpcode b0 b1
  /-- The frames that were received. -/
  frames : framesOf (Link.run env .start acts).ws.calls =
    framesOf (receivingHalf env acts).ws.calls
  /-- What there is of the message and of the frame that come next. -/
  rest : (Link.run env .start acts).ws.state = (receivingHalf env acts).ws.state ∧
    (Link.run env .start acts).ws.data = (receivingHalf env acts).ws.data ∧
    (Link.run env .start acts).unread = (receivingHalf env acts).unread
  /-- The frames that could be sent next, and how they would be marked. -/
  sendable : ∀ a, sendError (Link.run env .start acts).ws a = sendError (sendingHalf env acts) a ∧
    wireOpcode (Link.run env .start acts).ws a = wireOpcode (sendingHalf env acts) a
  /-- The frames that were sent. -/
  sent : sentOf (Link.run env .start acts).ws.calls = sentOf (sendingHalf env acts).calls
  /-- A new message is sent with an opcode of its own. -/
  fresh : messageOver (sendsIn env .start acts) = true → ∀ a,
    wireOpcode (Link.run env .start acts).ws a = a.opcode ∧
      ∀ c, sendError (Link.run env .start acts).ws a ≠ some (.expectingContinue c a.opcode)

/-! ## Calls of `ws_on_recv` -/

theorem Link.run_append (env : WsEnv) (l : Link) (acts acts' : List LinkAct) :
    l.run env (acts ++ acts') = (l.run env acts).run env acts' :=
  foldl_append

/-- The receive loop is some turns. -/
theorem drains_turns {env : WsEnv} {ws ws' : Ws} {u u' : List UInt8} {b : Bool}
    (h : Drains (recvTurn env) ws u ws' u' b) :
    ∃ n, Link.run env ⟨ws, u⟩ (replicate n .turn) = ⟨ws', u'⟩ := by
  induction h with
  | wait hturn | halt hturn =>
    refine ⟨1, ?_⟩
    rw [Link.run, replicate_one, foldl_cons, foldl_nil, Link.step, hturn]
  | last hturn hnil =>
    refine ⟨1, ?_⟩
    rw [Link.run, replicate_one, foldl_cons, foldl_nil, Link.step, hturn, ← hnil]
  | more hturn _ _ ih =>
    obtain ⟨n, hn⟩ := ih
    refine ⟨n + 1, ?_⟩
    rw [Link.run, replicate_succ, foldl_cons, Link.step, hturn]
    exact hn

/-- `ws_on_recv` is bytes that arrive, and some turns. -/
theorem wsOnRecv_turns {env : WsEnv} (hgrants : ∀ n, env.inGrants n = true) {w : Ws × Cb}
    (hwf : w.2.Wf) (buf : List UInt8)
    (hlen : w.2.content.length + buf.length < 2 ^ env.machine.bits) :
    ∃ n, Link.run env ⟨w.1, w.2.content⟩ (.arrive buf :: replicate n .turn) =
      ⟨(wsOnRecv env w buf).1, (wsOnRecv env w buf).2.content⟩ := by
  obtain ⟨hws, hcontent⟩ := Prod.ext_iff.mp (wsOnRecv_view hgrants hwf buf hlen).2
  rw [receive] at hws hcontent
  split at hws
  · next hnil =>
    rw [if_pos hnil] at hcontent
    rw [isEmpty_iff.mp hnil] at hws hcontent ⊢
    exact ⟨0, congrArg₂ Link.mk hws.symm ((append_nil _).trans hcontent.symm)⟩
  · next hne =>
    rw [if_neg hne] at hcontent
    obtain ⟨_, hdrains⟩ := drains_drain (recvTurn_decreases env) (Nat.lt_succ_self
      (recvRank w.1 (w.2.content ++ buf)))
    obtain ⟨n, hn⟩ := drains_turns hdrains
    exact ⟨n, hn.trans (congrArg₂ Link.mk hws hcontent).symm⟩

/-! ## What a frame that is sent does to the two directions -/

/-- A part of a message that is not the last one. -/
def SendFrame.Fragment (a : SendFrame) : Prop :=
  a.isFin = false ∧ (a.opcode = opcodeText ∨ a.opcode = opcodeBinary)

/-- The connections `ws` and `r` have received the same, and have nothing left over. -/
structure ReceivesLike (ws r : Ws) : Prop where
  idle : ws.continuedOpcode = 0
  idleAlone : r.continuedOpcode = 0
  state : ws.state = r.state
  data : ws.data = r.data
  neededLength : ws.neededLength = r.neededLength
  frameLength : ws.frameLength = r.frameLength
  frames : framesOf ws.calls = framesOf r.calls

/-- The connections `ws` and `s` have sent the same, and have nothing left over. -/
structure SendsLike (ws s : Ws) : Prop where
  idle : ws.continuedOpcode = 0
  idleAlone : s.continuedOpcode = 0
  out : ws.out = s.out
  sentClose : ws.sentClose = s.sentClose
  sent : sentOf ws.calls = sentOf s.calls

theorem sendError_congr {ws s : Ws} (hc : ws.continuedOpcode = s.continuedOpcode)
    (hclose : ws.sentClose = s.sentClose) (a : SendFrame) : sendError ws a = sendError s a := by
  rw [sendError, sendError, hc, hclose]

theorem sentOf_append (calls calls' : List WsCall) :
    sentOf (calls ++ calls') = sentOf calls ++ sentOf calls' :=
  filterMap_append

theorem framesOf_append (calls calls' : List WsCall) :
    framesOf (calls ++ calls') = framesOf calls ++ framesOf calls' :=
  filterMap_append

theorem opcode_cases {opcode : UInt8} (h : opcode ∈ knownOpcodes) (hc : isControl opcode = false) :
    opcode = opcodeContinuation ∨ opcode = opcodeText ∨ opcode = opcodeBinary := by
  simp only [knownOpcodes, mem_cons, not_mem_nil, or_false] at h
  rcases h with rfl | rfl | rfl | rfl | rfl | rfl
  · exact .inl rfl
  · exact .inr (.inl rfl)
  · exact .inr (.inr rfl)
  all_goals exact absurd hc (by decide)

theorem not_fragment_opens {ws : Ws} {a : SendFrame} (h : sendError ws a = none)
    (hfrag : ¬ a.Fragment) (hopens : a.isFin = false) : a.opcode = opcodeContinuation := by
  rw [sendError] at h
  split at h
  · cases h
  · cases hp : a.payload with
    | none =>
      simp only [hp] at h
      cases h
    | some payload =>
      simp only [hp] at h
      by_cases hknown : a.opcode ∈ knownOpcodes
      · rw [if_neg (not_not_intro hknown)] at h
        by_cases hcontrol : isControl a.opcode = true
        · rw [if_pos ⟨hcontrol, by rw [hopens]; exact Bool.false_ne_true⟩] at h
          cases h
        · rcases opcode_cases hknown (Bool.eq_false_iff.mpr hcontrol) with h0 | h12
          · exact h0
          · exact absurd ⟨hopens, h12⟩ hfrag
      · rw [if_pos hknown] at h
        cases h

/-- The bytes of the frame, if it is sent. -/
def frameOut (env : WsEnv) (ws : Ws) (a : SendFrame) : List UInt8 :=
  frameBytes env.machine a.isFin (wireOpcode ws a) a.isMasking a.mask (a.payload.getD [])

/-- The output buffer that is to take the frame. -/
def roomFor (env : WsEnv) (out : Cb) (a : SendFrame) : Cb × Bool :=
  let payload := a.payload.getD []
  cbEnsureCapacity env.machine (cbClear out)
    ((2 + payloadN payload.length + (if a.isMasking then 4 else 0) + payload.length)
      % 2 ^ env.machine.bits)

/-- What a call of `ws_send_frame` can do. -/
inductive SendCase (env : WsEnv) (ws : Ws) (a : SendFrame) : Ws → Prop
  | rejected {e : WsError} : sendError ws a = some e → SendCase env ws a (ws.call (.onError e))
  | noMemory {out : Cb} : sendError ws a = none → roomFor env ws.out a = (out, false) →
      SendCase env ws a ({ ws with out := out }.call (.onError .outOfMemory))
  | crash {out : Cb} : sendError ws a = none → roomFor env ws.out a = (out, true) →
      out.block.length < out.tail + (frameOut env ws a).length →
      SendCase env ws a { ws with state := .crashed }
  | sent {out : Cb} : sendError ws a = none → roomFor env ws.out a = (out, true) →
      ¬ out.block.length < out.tail + (frameOut env ws a).length →
      SendCase env ws a
        ({ ws with
          out := out.put (frameOut env ws a)
          continuedOpcode :=
            if ¬ a.isFin ∧ ws.continuedOpcode = 0 then a.opcode else ws.continuedOpcode
          sentClose := ws.sentClose || (env.sends (frameOut env ws a) && a.opcode == opcodeClose)
        }.call (.sendData (frameOut env ws a)))

theorem wsSendFrame_cases (env : WsEnv) (ws : Ws) (a : SendFrame) :
    SendCase env ws a (wsSendFrame env ws a) := by
  rw [wsSendFrame]
  cases herr : sendError ws a with
  | some e => exact .rejected herr
  | none =>
    dsimp only
    cases hroom : roomFor env ws.out a with
    | mk out ok =>
      rw [show cbEnsureCapacity _ _ _ = (out, ok) from hroom]
      cases ok with
      | false => exact .noMemory herr hroom
      | true =>
        change SendCase env ws a
          (if out.block.length < out.tail + (frameOut env ws a).length then _ else _)
        by_cases hlong : out.block.length < out.tail + (frameOut env ws a).length
        · rw [if_pos hlong]
          exact .crash herr hroom hlong
        · rw [if_neg hlong]
          exact .sent herr hroom hlong

theorem SendCase.eq {env : WsEnv} {ws ws' : Ws} {a : SendFrame} (h : SendCase env ws a ws') :
    wsSendFrame env ws a = ws' := by
  rw [wsSendFrame]
  cases h with
  | rejected herr => rw [herr]
  | noMemory herr hroom =>
    rw [herr]
    dsimp only
    rw [show cbEnsureCapacity _ _ _ = _ from hroom]
  | crash herr hroom hlong =>
    rw [herr]
    dsimp only
    rw [show cbEnsureCapacity _ _ _ = _ from hroom]
    exact if_pos hlong
  | sent herr hroom hfits =>
    rw [herr]
    dsimp only
    rw [show cbEnsureCapacity _ _ _ = _ from hroom]
    exact if_neg hfits

theorem framesOf_call (ws : Ws) (c : WsCall) :
    framesOf (ws.call c).calls = framesOf ws.calls ++ framesOf [c] :=
  framesOf_append ws.calls [c]

theorem sentOf_call (ws : Ws) (c : WsCall) :
    sentOf (ws.call c).calls = sentOf ws.calls ++ sentOf [c] :=
  sentOf_append ws.calls [c]

theorem wsSendFrame_calls (env : WsEnv) (ws : Ws) (a : SendFrame) :
    ∃ more, (wsSendFrame env ws a).calls = ws.calls ++ more ∧ framesOf more = [] := by
  have hcase := wsSendFrame_cases env ws a
  generalize wsSendFrame env ws a = ws' at hcase
  cases hcase with
  | rejected _ => exact ⟨_, rfl, rfl⟩
  | noMemory _ _ => exact ⟨_, rfl, rfl⟩
  | crash _ _ _ => exact ⟨[], (append_nil _).symm, rfl⟩
  | sent _ _ _ => exact ⟨_, rfl, rfl⟩

theorem wsSendFrame_frames (env : WsEnv) (ws : Ws) (a : SendFrame) :
    framesOf (wsSendFrame env ws a).calls = framesOf ws.calls := by
  obtain ⟨more, hcalls, hno⟩ := wsSendFrame_calls env ws a
  rw [hcalls, framesOf_append, hno, append_nil]

theorem wsSendFrame_receives {env : WsEnv} {ws r : Ws} {a : SendFrame} (h : ReceivesLike ws r)
    (hfrag : ¬ a.Fragment) (hok : (wsSendFrame env ws a).state ≠ .crashed) :
    ReceivesLike (wsSendFrame env ws a) r := by
  have hframes := (wsSendFrame_frames env ws a).trans h.frames
  have hcase := wsSendFrame_cases env ws a
  generalize wsSendFrame env ws a = ws' at hcase hok hframes
  cases hcase with
  | rejected _ => exact { h with frames := hframes }
  | noMemory _ _ => exact { h with frames := hframes }
  | crash _ _ _ => exact absurd rfl hok
  | sent herr _ _ =>
    refine { h with frames := hframes, idle := ?_ }
    show (if ¬ a.isFin = true ∧ ws.continuedOpcode = 0 then a.opcode else ws.continuedOpcode) = 0
    split
    · next hopens =>
        exact not_fragment_opens herr hfrag (Bool.eq_false_iff.mpr hopens.1)
    · exact h.idle

theorem wsSendFrame_sends {env : WsEnv} {ws s : Ws} {a : SendFrame} (h : SendsLike ws s)
    (hfrag : ¬ a.Fragment) (hok : (wsSendFrame env ws a).state ≠ .crashed) :
    SendsLike (wsSendFrame env ws a) (wsSendFrame env s a) ∧
      (wsSendFrame env s a).state = s.state := by
  have hc : ws.continuedOpcode = s.continuedOpcode := h.idle.trans h.idleAlone.symm
  have herrs := sendError_congr hc h.sentClose a
  have hout : frameOut env ws a = frameOut env s a := by
    rw [frameOut, frameOut, wireOpcode, wireOpcode, hc]
  have hcase := wsSendFrame_cases env ws a
  generalize wsSendFrame env ws a = ws' at hcase hok
  cases hcase with
  | rejected herr =>
    rw [SendCase.eq (.rejected (herrs.symm.trans herr))]
    exact ⟨{ h with sent := by rw [sentOf_call, sentOf_call, h.sent] }, rfl⟩
  | noMemory herr hroom =>
    rw [h.out] at hroom
    rw [SendCase.eq (.noMemory (herrs.symm.trans herr) hroom)]
    refine ⟨{ h with out := rfl, sent := ?_ }, rfl⟩
    rw [sentOf_call, sentOf_call]
    exact congrArg (· ++ _) h.sent
  | crash _ _ _ => exact absurd rfl hok
  | sent herr hroom hfits =>
    rw [h.out] at hroom
    have hfits' := hfits
    rw [hout] at hfits'
    rw [SendCase.eq (.sent (herrs.symm.trans herr) hroom hfits')]
    have hidle : (if ¬ a.isFin = true ∧ ws.continuedOpcode = 0 then a.opcode
        else ws.continuedOpcode) = 0 := by
      split
      · next hopens => exact not_fragment_opens herr hfrag (Bool.eq_false_iff.mpr hopens.1)
      · exact h.idle
    refine ⟨⟨hidle, ?_, ?_, ?_, ?_⟩, rfl⟩
    · show (if ¬ a.isFin = true ∧ s.continuedOpcode = 0 then a.opcode
        else s.continuedOpcode) = 0
      rw [← hc]
      exact hidle
    · show Cb.put _ _ = Cb.put _ _
      rw [hout]
    · show (ws.sentClose || _) = (s.sentClose || _)
      rw [h.sentClose, hout]
    · rw [sentOf_call, sentOf_call, hout]
      exact congrArg (· ++ _) h.sent

/-- The two directions of one connection, each next to its half. -/
structure Sides (ws r s : Ws) : Prop where
  receives : ReceivesLike ws r
  sends : SendsLike ws s
  alive : s.state ≠ .crashed

theorem sendAll_crashed (env : WsEnv) {ws : Ws} (h : ws.state = .crashed) (sends : List SendFrame) :
    sendAll env ws sends = ws := by
  induction sends with
  | nil => rfl
  | cons a sends ih =>
    rw [sendAll, foldl_cons, if_pos h]
    exact ih

theorem Sides.sendAll {env : WsEnv} {ws r s : Ws} (h : Sides ws r s) {sends : List SendFrame}
    (hfrag : ∀ a ∈ sends, ¬ a.Fragment) (hok : (sendAll env ws sends).state ≠ .crashed) :
    Sides (sendAll env ws sends) r (sendAll env s sends) := by
  induction sends generalizing ws s with
  | nil => exact h
  | cons a sends ih =>
    by_cases hnow : ws.state = .crashed
    · rw [sendAll_crashed env hnow] at hok
      exact absurd hnow hok
    · have hws : WebkitProxy.sendAll env ws (a :: sends) =
          WebkitProxy.sendAll env (wsSendFrame env ws a) sends := by
        rw [WebkitProxy.sendAll, foldl_cons, if_neg hnow]
        rfl
      have hs : WebkitProxy.sendAll env s (a :: sends) =
          WebkitProxy.sendAll env (wsSendFrame env s a) sends := by
        rw [WebkitProxy.sendAll, foldl_cons, if_neg h.alive]
        rfl
      have hnext : (wsSendFrame env ws a).state ≠ .crashed := by
        intro hcrash
        rw [hws, sendAll_crashed env hcrash] at hok
        exact hok hcrash
      have ha := hfrag a mem_cons_self
      obtain ⟨hsends, hstate⟩ := wsSendFrame_sends h.sends ha hnext
      rw [hws] at hok ⊢
      rw [hs]
      refine ih ⟨wsSendFrame_receives h.receives ha hnext, hsends, ?_⟩
        (fun b hb => hfrag b (mem_cons_of_mem a hb)) hok
      rw [hstate]
      exact h.alive

/-! ## What a turn does to the two directions -/

theorem sendAll_calls (env : WsEnv) (ws : Ws) (sends : List SendFrame) :
    ∃ more, (sendAll env ws sends).calls = ws.calls ++ more ∧ framesOf more = [] := by
  induction sends generalizing ws with
  | nil => exact ⟨[], (append_nil _).symm, rfl⟩
  | cons a sends ih =>
    rw [sendAll, foldl_cons]
    by_cases hnow : ws.state = .crashed
    · rw [if_pos hnow]
      exact ih ws
    · rw [if_neg hnow]
      obtain ⟨more, hcalls, hno⟩ := wsSendFrame_calls env ws a
      obtain ⟨more', hcalls', hno'⟩ := ih (wsSendFrame env ws a)
      refine ⟨more ++ more', ?_, ?_⟩
      · rw [← append_assoc, ← hcalls]
        exact hcalls'
      · rw [framesOf_append, hno, hno']
        rfl

/-- What a frame that was read on one connection is on another. -/
def ReadFrame.over (r : Ws) : ReadFrame → ReadFrame
  | .error ws n e => .error { r with data := ws.data } n e
  | .crash => .crash
  | .ok ws n isFin opcode isMasking => .ok { r with data := ws.data } n isFin opcode isMasking

theorem wsReadFrame_over (env : WsEnv) {ws r : Ws} (hc : ws.continuedOpcode = r.continuedOpcode)
    (hdata : ws.data = r.data) (hneeded : ws.neededLength = r.neededLength)
    (hframe : ws.frameLength = r.frameLength) (u : List UInt8) :
    wsReadFrame env r u = (wsReadFrame env ws u).over r := by
  obtain ⟨_, _, _, _, _, _, _, _⟩ := ws
  obtain ⟨_, _, _, _, _, _, _, _⟩ := r
  dsimp only at hc hdata hneeded hframe
  subst hc hdata hneeded hframe
  simp only [wsReadFrame]
  split
  · rfl
  · split
    · rfl
    · split
      · rfl
      · split <;> rfl

theorem wsReadFrame_isFin {env : WsEnv} {ws ws' : Ws} {u : List UInt8} {n : Nat}
    {isFin isMasking : Bool} {opcode : UInt8}
    (h : wsReadFrame env ws u = .ok ws' n isFin opcode isMasking) :
    isFin = decide (u.getD 0 0 &&& 0x80 ≠ 0) := by
  simp only [wsReadFrame] at h
  split at h
  · cases h
  · split at h
    · cases h
    · split at h
      · cases h
      · split at h <;> cases h
        rfl

/-- What `on_frame` is told. -/
def told (ws : Ws) (isFin : Bool) (opcode : UInt8) (isMasking : Bool) : Frame :=
  ⟨isFin, opcode, isMasking, ws.data.block.take ws.data.tail⟩

/-- The end of `ws_recv_frame`, behind the callback. -/
def settle (env : WsEnv) (ws : Ws) (frame : Frame) : Ws :=
  { ws with
    data := if frame.isFin || !env.keeps frame then cbClear ws.data else ws.data
    continuedOpcode :=
      if frame.isFin then 0
      else if frame.opcode ≠ opcodeContinuation then frame.opcode else ws.continuedOpcode
    state := if ws.state = .crashed then .crashed
      else if frame.opcode = opcodeClose then .closed else .readFrameLength }

theorem afterFrame_eq (env : WsEnv) (ws : Ws) (isFin : Bool) (opcode : UInt8) (isMasking : Bool) :
    afterFrame env ws isFin opcode isMasking =
      settle env (sendAll env (ws.call (.onFrame (told ws isFin opcode isMasking)))
        (env.answers (told ws isFin opcode isMasking))) (told ws isFin opcode isMasking) :=
  rfl

theorem afterFrame_calls (env : WsEnv) (ws : Ws) (isFin : Bool) (opcode : UInt8)
    (isMasking : Bool) :
    ∃ more, (afterFrame env ws isFin opcode isMasking).calls =
      ws.calls ++ (.onFrame (told ws isFin opcode isMasking) :: more) ∧ framesOf more = [] := by
  obtain ⟨more, hcalls, hno⟩ := sendAll_calls env
    (ws.call (.onFrame (told ws isFin opcode isMasking)))
    (env.answers (told ws isFin opcode isMasking))
  refine ⟨more, ?_, hno⟩
  refine Eq.trans hcalls ?_
  rw [Ws.call]
  exact append_assoc _ _ _

theorem Sides.settle {env : WsEnv} {ws r s : Ws} (h : Sides ws r s) {frame : Frame}
    (hfin : frame.isFin = true) :
    Sides (WebkitProxy.settle env ws frame) (WebkitProxy.settle env.mute r frame) s := by
  have hidle : ∀ c : UInt8, (if frame.isFin = true then 0
      else if frame.opcode ≠ opcodeContinuation then frame.opcode else c) = 0 := fun _ => if_pos hfin
  refine ⟨{ h.receives with idle := hidle _, idleAlone := hidle _, state := ?_, data := ?_ },
    { h.sends with idle := hidle _ }, h.alive⟩
  · show (if ws.state = .crashed then _ else _) = (if r.state = .crashed then _ else _)
    rw [h.receives.state]
  · show (if _ then cbClear ws.data else ws.data) = (if _ then cbClear r.data else r.data)
    rw [h.receives.data]
    rfl

theorem settle_crashed {env : WsEnv} {ws : Ws} {frame : Frame}
    (h : (settle env ws frame).state ≠ .crashed) : ws.state ≠ .crashed :=
  fun hcrash => h (if_pos hcrash)

theorem Sides.afterFrame {env : WsEnv} {ws r s : Ws} (h : Sides ws r s)
    (hans : ∀ frame, ∀ a ∈ env.answers frame, ¬ a.Fragment) (opcode : UInt8) (isMasking : Bool)
    (hok : (WebkitProxy.afterFrame env ws true opcode isMasking).state ≠ .crashed) :
    Sides (WebkitProxy.afterFrame env ws true opcode isMasking)
      (WebkitProxy.afterFrame env.mute r true opcode isMasking)
      (WebkitProxy.sendAll env s (env.answers (told ws true opcode isMasking))) := by
  have hframe : told r true opcode isMasking = told ws true opcode isMasking := by
    rw [told, told, h.receives.data]
  have h1 : Sides (ws.call (.onFrame (told ws true opcode isMasking)))
      (r.call (.onFrame (told ws true opcode isMasking))) s := by
    refine ⟨{ h.receives with frames := ?_ }, { h.sends with sent := ?_ }, h.alive⟩
    · rw [framesOf_call, framesOf_call, h.receives.frames]
    · rw [sentOf_call, h.sends.sent]
      exact append_nil _
  rw [afterFrame_eq] at hok ⊢
  rw [afterFrame_eq, hframe]
  exact (h1.sendAll (hans _) (settle_crashed hok)).settle rfl

/-! ## Runs -/

/-- What the links of a run and of its half have in common. -/
structure Beside (l r : Link) (s : Ws) : Prop where
  sides : Sides l.ws r.ws s
  unread : l.unread = r.unread

/-- A step in which no fragment is sent or received. -/
def Link.Whole (l : Link) : LinkAct → Prop
  | .send a => ¬ a.Fragment
  | .arrive _ => True
  | .turn => l.ws.state = .readFrame → l.ws.frameLength ≤ l.unread.length →
      l.unread.getD 0 0 &&& 0x80 ≠ 0

theorem framesOf_drop {calls calls' more : List WsCall} (h : calls' = calls ++ more) :
    framesOf (calls'.drop calls.length) = framesOf more := by
  rw [h, drop_left]

theorem sendsBy_turn_nil {env : WsEnv} {l : Link} (more : List WsCall)
    (h : (l.step env .turn).ws.calls = l.ws.calls ++ more) (hno : framesOf more = []) :
    sendsBy env l .turn = [] := by
  rw [sendsBy, framesOf_drop h, hno]
  rfl

theorem step_turn_wait {env : WsEnv} {l : Link} {ws : Ws} (h : recvTurn env l.ws l.unread = .wait ws) :
    l.step env .turn = ⟨ws, l.unread⟩ := by
  rw [Link.step, h]

theorem step_turn_go {env : WsEnv} {l : Link} {ws : Ws} {n : Nat}
    (h : recvTurn env l.ws l.unread = .go ws n) : l.step env .turn = ⟨ws, l.unread.drop n⟩ := by
  rw [Link.step, h]

theorem step_turn_halt {env : WsEnv} {l : Link} {ws : Ws} {n : Nat}
    (h : recvTurn env l.ws l.unread = .halt ws n) : l.step env .turn = ⟨ws, l.unread.drop n⟩ := by
  rw [Link.step, h]

theorem sendsBy_turn_frame {env : WsEnv} {l : Link} {data : Cb} {isFin isMasking : Bool}
    {opcode : UInt8}
    (h : (l.step env .turn).ws = afterFrame env { l.ws with data := data } isFin opcode isMasking) :
    sendsBy env l .turn = env.answers (told { l.ws with data := data } isFin opcode isMasking) := by
  obtain ⟨more, hcalls, hno⟩ := afterFrame_calls env { l.ws with data := data } isFin opcode isMasking
  have hframes : framesOf (.onFrame (told { l.ws with data := data } isFin opcode isMasking) :: more) =
      [told { l.ws with data := data } isFin opcode isMasking] :=
    congrArg (List.cons _) hno
  rw [sendsBy, h, framesOf_drop hcalls, hframes, flatMap_singleton]

theorem Beside.reads {env : WsEnv} {l r : Link} {s ws' : Ws} (h : Beside l r s)
    (hans : ∀ frame, ∀ a ∈ env.answers frame, ¬ a.Fragment) {n : Nat} {opcode : UInt8}
    {isMasking : Bool} (hres : wsReadFrame env l.ws l.unread = .ok ws' n true opcode isMasking)
    (hok : (afterFrame env ws' true opcode isMasking).state ≠ .crashed) :
    ∃ data, ws' = { l.ws with data := data } ∧
      wsReadFrame env.mute r.ws r.unread =
        .ok { r.ws with data := data } n true opcode isMasking ∧
      Sides (afterFrame env { l.ws with data := data } true opcode isMasking)
        (afterFrame env.mute { r.ws with data := data } true opcode isMasking)
        (sendAll env s (env.answers (told { l.ws with data := data } true opcode isMasking))) := by
  have hr := h.sides.receives
  have hself := @wsReadFrame_over env l.ws l.ws rfl rfl rfl rfl l.unread
  have hread := wsReadFrame_over env (hr.idle.trans hr.idleAlone.symm) hr.data hr.neededLength
    hr.frameLength l.unread
  rw [hres] at hread hself
  rw [h.unread] at hread
  obtain ⟨data, rfl⟩ : ∃ data, ws' = { l.ws with data := data } := ⟨_, (ReadFrame.ok.inj hself).1⟩
  have h1 : Sides { l.ws with data := data } { r.ws with data := data } s :=
    ⟨{ hr with data := rfl }, { h.sides.sends with }, h.sides.alive⟩
  exact ⟨data, rfl, hread, h1.afterFrame hans opcode isMasking hok⟩

theorem Beside.turn {env : WsEnv} {l r : Link} {s : Ws} (h : Beside l r s) (hwhole : l.Whole .turn)
    (hans : ∀ frame, ∀ a ∈ env.answers frame, ¬ a.Fragment)
    (hok : (l.step env .turn).ws.state ≠ .crashed) :
    Beside (l.step env .turn) (r.step env.mute .turn) (sendAll env s (sendsBy env l .turn)) := by
  have hr := h.sides.receives
  have hc : l.ws.continuedOpcode = r.ws.continuedOpcode := hr.idle.trans hr.idleAlone.symm
  have hu := h.unread
  have hread := wsReadFrame_over env hc hr.data hr.neededLength hr.frameLength l.unread
  have hself := @wsReadFrame_over env l.ws l.ws rfl rfl rfl rfl l.unread
  have hcase := recvTurn_cases env l.ws l.unread
  generalize hturn : recvTurn env l.ws l.unread = t at hcase
  cases hcase with
  | badHeader hstate hof =>
    rw [hr.state] at hstate
    rw [hc, hu] at hof
    have hturn' := (TurnCase.badHeader hstate hof : TurnCase env.mute r.ws r.unread _).eq
    rw [sendsBy_turn_nil _ (by rw [step_turn_halt hturn]; rfl) rfl, step_turn_halt hturn,
      step_turn_halt hturn']
    refine ⟨⟨{ hr with state := rfl, neededLength := rfl, frameLength := rfl, frames := ?_ },
      { h.sides.sends with sent := ?_ }, h.sides.alive⟩, congrArg (List.drop _) hu⟩
    · exact (framesOf_call _ _).trans ((congrArg (· ++ _) hr.frames).trans (framesOf_call _ _).symm)
    · exact (sentOf_call _ _).trans ((append_nil _).trans h.sides.sends.sent)
  | partHeader hstate hof hpart =>
    rw [hr.state] at hstate
    rw [hc, hu] at hof
    have hturn' := (TurnCase.partHeader hstate hof hpart : TurnCase env.mute r.ws r.unread _).eq
    rw [sendsBy_turn_nil [] (by rw [step_turn_wait hturn, append_nil]) rfl,
      step_turn_wait hturn, step_turn_wait hturn']
    exact ⟨⟨{ hr with neededLength := rfl, frameLength := rfl }, { h.sides.sends with },
      h.sides.alive⟩, hu⟩
  | header hstate hof hne =>
    rw [hr.state] at hstate
    rw [hc, hu] at hof
    have hturn' := (TurnCase.header hstate hof hne : TurnCase env.mute r.ws r.unread _).eq
    rw [sendsBy_turn_nil [] (by rw [step_turn_go hturn, append_nil]) rfl,
      step_turn_go hturn, step_turn_go hturn']
    exact ⟨⟨{ hr with state := rfl, neededLength := rfl, frameLength := rfl },
      { h.sides.sends with }, h.sides.alive⟩, congrArg (List.drop _) hu⟩
  | partFrame hstate hpart =>
    rw [hr.state] at hstate
    rw [hr.neededLength, hr.frameLength, hu] at hpart
    have hturn' := (TurnCase.partFrame hstate hpart : TurnCase env.mute r.ws r.unread _).eq
    rw [sendsBy_turn_nil [] (by rw [step_turn_wait hturn, append_nil]) rfl,
      step_turn_wait hturn, step_turn_wait hturn']
    exact ⟨h.sides, hu⟩
  | badFrame hstate hlong hres hready =>
    rw [hr.state] at hstate
    rw [hr.frameLength, hu] at hlong
    rw [hr.neededLength, hr.frameLength] at hready
    rw [hres] at hread hself
    rw [hu] at hread
    have hturn' := (TurnCase.badFrame hstate hlong hread hready : TurnCase env.mute r.ws r.unread _).eq
    obtain ⟨data, rfl⟩ : ∃ data, _ = { l.ws with data := data } :=
      ⟨_, (ReadFrame.error.inj hself).1⟩
    rw [sendsBy_turn_nil _ (by rw [step_turn_halt hturn]; rfl) rfl, step_turn_halt hturn,
      step_turn_halt hturn']
    refine ⟨⟨{ hr with state := rfl, data := rfl, frames := ?_ },
      { h.sides.sends with sent := ?_ }, h.sides.alive⟩, congrArg (List.drop _) hu⟩
    · exact (framesOf_call _ _).trans ((congrArg (· ++ _) hr.frames).trans (framesOf_call _ _).symm)
    · exact (sentOf_call _ _).trans ((append_nil _).trans h.sides.sends.sent)
  | crash hstate hlong hres hready =>
    rw [step_turn_halt hturn] at hok
    exact absurd rfl hok
  | frame hstate hlong hres hnext hready =>
    obtain rfl := (wsReadFrame_isFin hres).trans (decide_eq_true (hwhole hstate hlong))
    rw [step_turn_go hturn] at hok
    obtain ⟨data, rfl, hread', h2⟩ := h.reads hans hres hok
    rw [hr.state] at hstate
    rw [hr.frameLength, hu] at hlong
    rw [hr.neededLength, hr.frameLength] at hready
    rw [h2.receives.state] at hnext
    have hturn' := (TurnCase.frame hstate hlong hread' hnext hready : TurnCase env.mute r.ws r.unread _).eq
    rw [sendsBy_turn_frame (by rw [step_turn_go hturn]), step_turn_go hturn, step_turn_go hturn']
    exact ⟨h2, congrArg (List.drop _) hu⟩
  | lastFrame hstate hlong hres hnext hready =>
    obtain rfl := (wsReadFrame_isFin hres).trans (decide_eq_true (hwhole hstate hlong))
    rw [step_turn_halt hturn] at hok
    obtain ⟨data, rfl, hread', h2⟩ := h.reads hans hres hok
    rw [hr.state] at hstate
    rw [hr.frameLength, hu] at hlong
    rw [hr.neededLength, hr.frameLength] at hready
    rw [h2.receives.state] at hnext
    have hturn' := (TurnCase.lastFrame hstate hlong hread' hnext hready : TurnCase env.mute r.ws r.unread _).eq
    rw [sendsBy_turn_frame (by rw [step_turn_halt hturn]), step_turn_halt hturn,
      step_turn_halt hturn']
    exact ⟨h2, congrArg (List.drop _) hu⟩
  | ended hstate =>
    rw [hr.state] at hstate
    have hturn' := (TurnCase.ended hstate : TurnCase env.mute r.ws r.unread _).eq
    rw [sendsBy_turn_nil [] (by rw [step_turn_wait hturn, append_nil]) rfl,
      step_turn_wait hturn, step_turn_wait hturn']
    exact ⟨h.sides, hu⟩

theorem Beside.step {env : WsEnv} {l r : Link} {s : Ws} (h : Beside l r s) {act : LinkAct}
    (hwhole : l.Whole act) (hans : ∀ frame, ∀ a ∈ env.answers frame, ¬ a.Fragment)
    (hok : (l.step env act).ws.state ≠ .crashed) :
    Beside (l.step env act) (r.run env.mute ([act].filter fun act => !act.isSend))
      (sendAll env s (sendsBy env l act)) := by
  cases act with
  | send a =>
    rw [Link.step] at hok ⊢
    by_cases hnow : l.ws.state = .crashed
    · rw [if_pos hnow] at hok
      exact absurd hnow hok
    · rw [if_neg hnow] at hok ⊢
      obtain ⟨hsends, hstate⟩ := wsSendFrame_sends h.sides.sends hwhole hok
      have hsent : sendAll env s (sendsBy env l (.send a)) = wsSendFrame env s a :=
        if_neg h.sides.alive
      rw [hsent]
      refine ⟨⟨wsSendFrame_receives h.sides.receives hwhole hok, hsends, ?_⟩, h.unread⟩
      rw [hstate]
      exact h.sides.alive
  | arrive bytes => exact ⟨h.sides, congrArg (· ++ bytes) h.unread⟩
  | turn => exact h.turn hwhole hans hok

theorem Link.step_crashed {env : WsEnv} {l : Link} (h : l.ws.state = .crashed) (act : LinkAct) :
    (l.step env act).ws = l.ws := by
  cases act with
  | send a => rw [Link.step, if_pos h]
  | arrive bytes => rfl
  | turn => rw [step_turn_wait (recvTurn_ended (.inr (.inr h)) l.unread)]

theorem Link.run_crashed {env : WsEnv} {l : Link} (h : l.ws.state = .crashed)
    (acts : List LinkAct) : (l.run env acts).ws.state = .crashed := by
  induction acts generalizing l with
  | nil => exact h
  | cons act acts ih =>
    rw [Link.run, foldl_cons]
    exact ih (by rw [Link.step_crashed h]; exact h)

/-- No step of a run sends or receives a fragment. -/
def Link.WholeRun (env : WsEnv) (l : Link) : List LinkAct → Prop
  | [] => True
  | act :: acts => l.Whole act ∧ (l.step env act).WholeRun env acts

theorem sendAll_append (env : WsEnv) (ws : Ws) (sends sends' : List SendFrame) :
    sendAll env ws (sends ++ sends') = sendAll env (sendAll env ws sends) sends' :=
  foldl_append

theorem Beside.run {env : WsEnv} {l r : Link} {s : Ws} (h : Beside l r s) {acts : List LinkAct}
    (hwhole : l.WholeRun env acts) (hans : ∀ frame, ∀ a ∈ env.answers frame, ¬ a.Fragment)
    (hok : (l.run env acts).ws.state ≠ .crashed) :
    Beside (l.run env acts) (r.run env.mute (acts.filter fun act => !act.isSend))
      (sendAll env s (sendsIn env l acts)) := by
  induction acts generalizing l r s with
  | nil => exact h
  | cons act acts ih =>
    obtain ⟨hnow, hrest⟩ := hwhole
    rw [Link.run, foldl_cons] at hok ⊢
    have hstep : (l.step env act).ws.state ≠ .crashed := fun hcrash =>
      hok (Link.run_crashed hcrash acts)
    have hnext := ih (h.step hnow hans hstep) hrest hok
    rw [sendsIn, sendAll_append, ← singleton_append, filter_append, Link.run_append]
    exact hnext

end IDeviceStack.WebkitProxy
