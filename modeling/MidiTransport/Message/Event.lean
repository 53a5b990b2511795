import MidiTransport.Message.Basic

/-!
# Events

A pull answers with an event: a message that is complete, or a piece of a system exclusive message.
Whether the message goes on behind the piece is told by the kind of the event, which follows from
what the decoder has done, and once more by the piece itself.
-/

namespace MidiTransport

/-- What a pull has found. -/
inductive Event where
  | channel (message : ChannelMessage)
  | common (message : CommonMessage)
  | realTime (message : RealTimeMessage)
  /-- A piece behind which its message goes on. -/
  | sysExChunk (piece : SysExPiece)
  /-- The last piece of a message, or all of it. -/
  | sysExMessage (piece : SysExPiece)
  deriving DecidableEq, Repr

namespace Event

/-- The message that can be read behind an event. -/
def message : Event → Message
  | channel message => .channel message
  | common message => .common message
  | realTime message => .realTime message
  | sysExChunk piece => .sysEx piece
  | sysExMessage piece => .sysEx piece

@[simp] theorem message_channel (message : ChannelMessage) :
    (channel message).message = .channel message :=
  rfl

@[simp] theorem message_common (message : CommonMessage) :
    (common message).message = .common message :=
  rfl

@[simp] theorem message_realTime (message : RealTimeMessage) :
    (realTime message).message = .realTime message :=
  rfl

@[simp] theorem message_sysExChunk (piece : SysExPiece) :
    (sysExChunk piece).message = .sysEx piece :=
  rfl

@[simp] theorem message_sysExMessage (piece : SysExPiece) :
    (sysExMessage piece).message = .sysEx piece :=
  rfl

/-- The cable of the message. -/
def cable (event : Event) : Cable := event.message.cable

/-- The bytes of a system exclusive message that come with an event. -/
def sysExData : Event → List UInt8
  | sysExChunk piece => piece.data
  | sysExMessage piece => piece.data
  | _ => []

/-- Does a system exclusive message end here? -/
def endsSysEx : Event → Bool
  | sysExMessage _ => true
  | _ => false

/-- Is this a real-time message? -/
def isRealTime : Event → Bool
  | realTime _ => true
  | _ => false

end Event

end MidiTransport
