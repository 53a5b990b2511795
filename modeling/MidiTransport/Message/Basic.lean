import MidiTransport.Message.Cable
import MidiTransport.Message.Status

/-!
# Messages

A MIDI message is a channel message, a system common message, a real-time byte
or a piece of a system exclusive message. The bytes of a message are not checked:
a header may be any byte, and `ChannelMessage.sanitize` turns it into a legal one.
-/

namespace MidiTransport

/-- A message for one of the sixteen channels of a cable. -/
structure ChannelMessage where
  /-- The kind of the message in the upper nibble, its channel in the lower one. -/
  header : UInt8
  data1 : UInt8
  /-- Unused by program change and channel pressure. -/
  data2 : UInt8
  cable : Cable
  deriving DecidableEq, Repr

/-- A system message with at most two data bytes. -/
structure CommonMessage where
  header : UInt8
  data1 : UInt8
  data2 : UInt8
  cable : Cable
  deriving DecidableEq, Repr

/-- A message of a single byte, which may interrupt any other message. -/
structure RealTimeMessage where
  byte : UInt8
  cable : Cable
  deriving DecidableEq, Repr

/-- A piece of a system exclusive message. A long message travels in several
pieces. The first one starts with `sysExStart`; the last one ends with `sysExEnd`
unless another status byte cut the message short. -/
structure SysExPiece where
  data : List UInt8
  cable : Cable
  /-- The message starts here. -/
  first : Bool
  /-- The message ends here. -/
  last : Bool
  deriving DecidableEq, Repr

/-- Any MIDI message. -/
inductive Message where
  | channel (message : ChannelMessage)
  | common (message : CommonMessage)
  | realTime (message : RealTimeMessage)
  | sysEx (piece : SysExPiece)
  deriving DecidableEq, Repr

/-- Two data bytes as one 14-bit value, the lower seven bits first. -/
def value14 (data1 data2 : UInt8) : UInt16 :=
  data1.toUInt16 ||| (data2.toUInt16 <<< 7)

namespace ChannelMessage

/-- The message that a receiver shows before it has read any. -/
def blank : ChannelMessage := ⟨0, 0, 0, .first⟩

def type? (message : ChannelMessage) : Option MessageType :=
  MessageType.ofStatus? message.header

def channel (message : ChannelMessage) : Channel := .ofNibble message.header

def hasTwoDataBytes (message : ChannelMessage) : Bool :=
  MidiTransport.hasTwoDataBytes message.header

/-- The data bytes that the message sends, one or two. -/
def dataBytes (message : ChannelMessage) : List UInt8 :=
  if message.hasTwoDataBytes then [message.data1, message.data2] else [message.data1]

def value14 (message : ChannelMessage) : UInt16 :=
  MidiTransport.value14 message.data1 message.data2

/-- Spread the lower fourteen bits of a value over the two data bytes. -/
def setValue14 (message : ChannelMessage) (value : UInt16) : ChannelMessage :=
  { message with
    data1 := (value &&& 0x7F).toUInt8
    data2 := ((value >>> 7) &&& 0x7F).toUInt8 }

/-- Set the top bit of the header, clear those of the data bytes, and clear a
second data byte that is not sent. -/
def sanitize (message : ChannelMessage) : ChannelMessage :=
  let header := message.header ||| 0x80
  { message with
    header
    data1 := message.data1 &&& 0x7F
    data2 := if MidiTransport.hasTwoDataBytes header then message.data2 &&& 0x7F else 0 }

end ChannelMessage

namespace CommonMessage

/-- The message that a receiver shows before it has read any. -/
def blank : CommonMessage := ⟨0, 0, 0, .first⟩

def type? (message : CommonMessage) : Option MessageType :=
  MessageType.ofByte? message.header

/-- The number of data bytes that the message sends. -/
def dataCount (message : CommonMessage) : Nat := systemCommonDataCount message.header

/-- The data bytes that the message sends, none to two. -/
def dataBytes (message : CommonMessage) : List UInt8 :=
  [message.data1, message.data2].take message.dataCount

def value14 (message : CommonMessage) : UInt16 :=
  MidiTransport.value14 message.data1 message.data2

end CommonMessage

namespace RealTimeMessage

/-- The message that a receiver shows before it has read any. -/
def blank : RealTimeMessage := ⟨0, .first⟩

def type? (message : RealTimeMessage) : Option MessageType :=
  MessageType.ofByte? message.byte

/-- Does the message's byte belong to a real-time message? -/
def isValid (message : RealTimeMessage) : Bool := isRealTime message.byte

end RealTimeMessage

namespace SysExPiece

/-- A piece whose place in its message is read off its outer bytes. -/
def ofBytes (data : List UInt8) (cable : Cable) : SysExPiece :=
  ⟨data, cable, data.head? == some sysExStart, data.getLast? == some sysExEnd⟩

def length (piece : SysExPiece) : Nat := piece.data.length

def isEmpty (piece : SysExPiece) : Bool := piece.data.isEmpty

/-- A piece that is a whole message. -/
def isComplete (piece : SysExPiece) : Bool := piece.first && piece.last

end SysExPiece

namespace Message

/-- The cable that a message travels on. -/
def cable : Message → Cable
  | channel message => message.cable
  | common message => message.cable
  | realTime message => message.cable
  | sysEx piece => piece.cable

/-- Real-time messages may pass where other messages have to wait. -/
def isRealTime : Message → Bool
  | realTime _ => true
  | _ => false

end Message

end MidiTransport
