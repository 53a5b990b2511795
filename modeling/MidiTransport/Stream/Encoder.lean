import MidiTransport.Message.Basic

/-!
# Encoding a MIDI byte stream

A stream carries the bytes of its messages one after the other. An encoder may leave
out the status byte of a channel message that repeats the status of the channel
message before it. System common and system exclusive messages end such a run,
real-time bytes do not.
-/

namespace MidiTransport.Stream

/-- The state of an encoder. -/
structure Encoder where
  /-- Repeated status bytes are left out. -/
  compresses : Bool
  /-- The status that data bytes may repeat, 0 if there is none. -/
  running : UInt8
  deriving DecidableEq, Repr

namespace Encoder

/-- An encoder at the start of a stream. -/
def initial (compresses : Bool) : Encoder := ⟨compresses, 0⟩

/-- Forget the running status, so that the next channel message is written in full. -/
def reset (encoder : Encoder) : Encoder := { encoder with running := 0 }

/-- May this status byte be left out? -/
def omits (encoder : Encoder) (header : UInt8) : Bool :=
  encoder.compresses && header == encoder.running

/-- The bytes of a message, and the encoder behind them. -/
def encode (encoder : Encoder) : Message → List UInt8 × Encoder
  | .channel message =>
    if encoder.omits message.header then (message.dataBytes, encoder)
    else (message.header :: message.dataBytes, { encoder with running := message.header })
  | .common message => (message.header :: message.dataBytes, encoder.reset)
  | .realTime message => ([message.byte], encoder)
  | .sysEx piece => (piece.data, encoder.reset)

end Encoder

end MidiTransport.Stream
