import MidiTransport.Message.Basic

/-!
# USB-MIDI event packets

Messages cross USB in packets of four bytes. The first byte names the cable and
says, by a code index number, how the other three are to be read.
-/

namespace MidiTransport.Usb

/-- Four bytes on a USB-MIDI endpoint. -/
structure EventPacket where
  /-- The cable in the upper nibble, the code index in the lower one. -/
  header : UInt8
  byte1 : UInt8
  byte2 : UInt8
  byte3 : UInt8
  deriving DecidableEq, Repr

/-- How the three data bytes of a packet are to be read. -/
inductive CodeIndex where
  | miscFunctionCodes
  | cableEvents
  | systemCommon2
  | systemCommon3
  /-- A system exclusive message starts or continues with three bytes. -/
  | sysExContinues
  /-- A system exclusive message ends with one byte. A system common message of a
  single byte has this code too. -/
  | sysExEnds1
  | sysExEnds2
  | sysExEnds3
  | noteOff
  | noteOn
  | keyPressure
  | controlChange
  | programChange
  | channelPressure
  | pitchBend
  | singleByte
  deriving DecidableEq, Repr

namespace CodeIndex

/-- All code indices, in the order of their values. -/
def all : List CodeIndex :=
  [.miscFunctionCodes, .cableEvents, .systemCommon2, .systemCommon3, .sysExContinues,
    .sysExEnds1, .sysExEnds2, .sysExEnds3, .noteOff, .noteOn, .keyPressure, .controlChange,
    .programChange, .channelPressure, .pitchBend, .singleByte]

/-- The four-bit value of a code index. -/
def value : CodeIndex → UInt8
  | miscFunctionCodes => 0x0
  | cableEvents => 0x1
  | systemCommon2 => 0x2
  | systemCommon3 => 0x3
  | sysExContinues => 0x4
  | sysExEnds1 => 0x5
  | sysExEnds2 => 0x6
  | sysExEnds3 => 0x7
  | noteOff => 0x8
  | noteOn => 0x9
  | keyPressure => 0xA
  | controlChange => 0xB
  | programChange => 0xC
  | channelPressure => 0xD
  | pitchBend => 0xE
  | singleByte => 0xF

/-- The name of a code index, as it is shown to the user. -/
def name : CodeIndex → String
  | miscFunctionCodes => "MiscFunctionCodes"
  | cableEvents => "CableEvents"
  | systemCommon2 => "SystemCommon2B"
  | systemCommon3 => "SystemCommon3B"
  | sysExContinues => "SysExStartCont"
  | sysExEnds1 => "SysExEnd1B"
  | sysExEnds2 => "SysExEnd2B"
  | sysExEnds3 => "SysExEnd3B"
  | noteOff => "NoteOff"
  | noteOn => "NoteOn"
  | keyPressure => "KeyPressure"
  | controlChange => "ControlChange"
  | programChange => "ProgramChange"
  | channelPressure => "ChannelPressure"
  | pitchBend => "PitchBend"
  | singleByte => "SingleByte"

/-- The code index with exactly this value. -/
def ofValue? (value : UInt8) : Option CodeIndex := all.find? (·.value == value)

/-- The code index of the channel messages with this status byte. -/
def ofChannelStatus? (status : UInt8) : Option CodeIndex :=
  if isChannelStatus status then ofValue? (status >>> 4) else none

/-- Reading a code index's own value gives the code index back. -/
theorem ofValue?_value (code : CodeIndex) : ofValue? code.value = some code := by
  cases code <;> rfl

end CodeIndex

namespace EventPacket

/-- The packet of four zeros, which stands for the absence of a packet. -/
def zero : EventPacket := ⟨0, 0, 0, 0⟩

/-- The first byte of a packet for a cable. -/
def headerFor (cable : Cable) (code : CodeIndex) : UInt8 :=
  UInt8.ofNat cable.index.val <<< 4 ||| code.value

def cable (packet : EventPacket) : Cable := .ofNibble (packet.header >>> 4)

/-- The code index of a packet. Each of the sixteen values of a nibble is one. -/
def code (packet : EventPacket) : CodeIndex :=
  (CodeIndex.ofValue? (packet.header &&& 0x0F)).getD .miscFunctionCodes

/-- The bytes behind the header. -/
def bytes (packet : EventPacket) : List UInt8 := [packet.byte1, packet.byte2, packet.byte3]

/-- A packet with up to three bytes, filled up with zeros. -/
def ofBytes (cable : Cable) (code : CodeIndex) (bytes : List UInt8) : EventPacket :=
  ⟨headerFor cable code, bytes.getD 0 0, bytes.getD 1 0, bytes.getD 2 0⟩

end EventPacket

end MidiTransport.Usb
