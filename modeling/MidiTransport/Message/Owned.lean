import MidiTransport.Message.Basic

/-!
# Messages that own their bytes

A piece of a system exclusive message is read from a buffer that its receiver fills again with the
next piece. Who keeps a message has to copy its bytes. The copy is a message of its own kind, which
can be shown as a message again: nothing is lost either way (`asMessage_ofMessage`,
`ofMessage_asMessage`).
-/

namespace MidiTransport

/-- A piece of a system exclusive message with a copy of its bytes. -/
structure OwnedSysEx where
  data : Array UInt8
  cable : Cable
  /-- The message starts here. -/
  first : Bool
  /-- The message ends here. -/
  last : Bool
  deriving DecidableEq, Repr

namespace OwnedSysEx

/-- Copy the bytes of a piece, and keep its place in the message. -/
def ofPiece (piece : SysExPiece) : OwnedSysEx :=
  ⟨piece.data.toArray, piece.cable, piece.first, piece.last⟩

/-- The piece that was copied. -/
def asPiece (owned : OwnedSysEx) : SysExPiece :=
  ⟨owned.data.toList, owned.cable, owned.first, owned.last⟩

@[simp] theorem asPiece_ofPiece (piece : SysExPiece) : (ofPiece piece).asPiece = piece := rfl

@[simp] theorem ofPiece_asPiece (owned : OwnedSysEx) : ofPiece owned.asPiece = owned := rfl

end OwnedSysEx

/-- Any message, with a copy of its bytes. -/
inductive OwnedMessage where
  | channel (message : ChannelMessage)
  | common (message : CommonMessage)
  | realTime (message : RealTimeMessage)
  | sysEx (owned : OwnedSysEx)
  deriving DecidableEq, Repr

namespace OwnedMessage

/-- A copy of a message. Only a piece of a system exclusive message has bytes elsewhere. -/
def ofMessage : Message → OwnedMessage
  | .channel message => channel message
  | .common message => common message
  | .realTime message => realTime message
  | .sysEx piece => sysEx (.ofPiece piece)

/-- The message that was copied, for instance to pass it on. -/
def asMessage : OwnedMessage → Message
  | channel message => .channel message
  | common message => .common message
  | realTime message => .realTime message
  | sysEx owned => .sysEx owned.asPiece

/-- The cable that a message travels on. -/
def cable : OwnedMessage → Cable
  | channel message => message.cable
  | common message => message.cable
  | realTime message => message.cable
  | sysEx owned => owned.cable

/-- A copy shows the message that was copied: its kind, its bytes, its cable and its place in a
longer message. -/
@[simp] theorem asMessage_ofMessage (message : Message) :
    (ofMessage message).asMessage = message := by
  cases message <;> rfl

/-- A copy of what a copy shows is the same copy. -/
@[simp] theorem ofMessage_asMessage (owned : OwnedMessage) : ofMessage owned.asMessage = owned := by
  cases owned <;> rfl

/-- A copy travels on the cable of the message that it shows. -/
@[simp] theorem cable_asMessage (owned : OwnedMessage) : owned.asMessage.cable = owned.cable := by
  cases owned <;> rfl

end OwnedMessage

end MidiTransport
