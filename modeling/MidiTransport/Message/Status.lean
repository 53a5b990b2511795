/-!
# Classes of MIDI bytes

A byte of a MIDI stream is a data byte or a status byte, and a status byte says
which kind of message it belongs to. `ByteClass.of` sorts the 256 bytes into six
classes; `MessageType` names the individual status bytes.
-/

namespace MidiTransport

/-- The status byte that opens a system exclusive message. -/
def sysExStart : UInt8 := 0xF0

/-- The status byte that closes a system exclusive message. -/
def sysExEnd : UInt8 := 0xF7

/-- What a byte of a MIDI stream is, judged by its value alone. -/
inductive ByteClass where
  /-- A byte below `0x80`. -/
  | data
  /-- `0x80` to `0xEF`: the kind of a channel message in the upper nibble, the
  channel in the lower one. -/
  | channelStatus
  /-- `0xF0`. -/
  | sysExStart
  /-- `0xF1` to `0xF6`. -/
  | systemCommon
  /-- `0xF7`. -/
  | sysExEnd
  /-- `0xF8` to `0xFF`. Such a byte may appear anywhere in a stream. -/
  | realTime
  deriving DecidableEq, Repr

/-- The class of a byte. -/
def ByteClass.of (byte : UInt8) : ByteClass :=
  if byte < 0x80 then .data
  else if byte < 0xF0 then .channelStatus
  else if byte = 0xF0 then .sysExStart
  else if byte < 0xF7 then .systemCommon
  else if byte = 0xF7 then .sysExEnd
  else .realTime

/-- Data bytes have a clear top bit. -/
def isData (byte : UInt8) : Bool := ByteClass.of byte == .data

/-- Status bytes have a set top bit. -/
def isStatus (byte : UInt8) : Bool := !isData byte

/-- Status bytes of channel messages. -/
def isChannelStatus (byte : UInt8) : Bool := ByteClass.of byte == .channelStatus

/-- Status bytes of system common messages, without the two ends of a system
exclusive message. -/
def isSystemCommon (byte : UInt8) : Bool := ByteClass.of byte == .systemCommon

/-- Bytes that are a message of their own at any place of a stream. -/
def isRealTime (byte : UInt8) : Bool := ByteClass.of byte == .realTime

theorem ByteClass.of_eq_data_iff {byte : UInt8} :
    ByteClass.of byte = .data ↔ byte < 0x80 := by
  constructor
  · intro eq
    by_cases low : byte < 0x80
    · exact low
    · simp only [ByteClass.of, low, if_false] at eq
      repeat' split at eq
      all_goals cases eq
  · intro low
    simp [ByteClass.of, low]

theorem ByteClass.of_eq_sysExStart_iff {byte : UInt8} :
    ByteClass.of byte = .sysExStart ↔ byte = MidiTransport.sysExStart := by
  constructor
  · intro kind
    unfold ByteClass.of at kind
    grind [MidiTransport.sysExStart]
  · rintro rfl
    rfl

theorem ByteClass.of_eq_sysExEnd_iff {byte : UInt8} :
    ByteClass.of byte = .sysExEnd ↔ byte = MidiTransport.sysExEnd := by
  constructor
  · intro kind
    unfold ByteClass.of at kind
    grind [MidiTransport.sysExEnd]
  · rintro rfl
    rfl

theorem isData_iff {byte : UInt8} : isData byte = true ↔ byte < 0x80 := by
  simp [isData, ByteClass.of_eq_data_iff]

theorem isRealTime_iff {byte : UInt8} : isRealTime byte = true ↔ 0xF8 ≤ byte := by
  unfold isRealTime ByteClass.of
  grind

theorem isRealTime_eq_false_iff {byte : UInt8} : isRealTime byte = false ↔ byte < 0xF8 := by
  rw [← Bool.not_eq_true, isRealTime_iff, UInt8.not_le]

/-- The kind of a channel status byte has two data bytes, except for program
change and channel pressure. The rule reads the upper nibble only. -/
def hasTwoDataBytes (status : UInt8) : Bool :=
  let kind := status &&& 0xF0
  kind ≤ 0xB0 || kind == 0xE0

/-- The number of data bytes behind a system common status byte. -/
def systemCommonDataCount (status : UInt8) : Nat :=
  if status = 0xF2 then 2
  else if status = 0xF1 || status = 0xF3 then 1
  else 0

/-- The status bytes of MIDI, those of channel messages with their channel left
out. -/
inductive MessageType where
  | noteOff | noteOn | keyPressure | controlChange | programChange
  | channelPressure | pitchBend | sysExStart | mtcQuarterFrame
  | songPositionPointer | songSelect | undefinedSysCommon1
  | undefinedSysCommon2 | tuneRequest | sysExEnd | timingClock
  | undefinedRealTime1 | start | resume | stop | undefinedRealTime2
  | activeSensing | systemReset
  deriving DecidableEq, Repr

namespace MessageType

/-- All message types, in the order of their status bytes. -/
def all : List MessageType :=
  [.noteOff, .noteOn, .keyPressure, .controlChange, .programChange,
    .channelPressure, .pitchBend, .sysExStart, .mtcQuarterFrame,
    .songPositionPointer, .songSelect, .undefinedSysCommon1,
    .undefinedSysCommon2, .tuneRequest, .sysExEnd, .timingClock,
    .undefinedRealTime1, .start, .resume, .stop, .undefinedRealTime2,
    .activeSensing, .systemReset]

/-- The status byte of a type, on channel 1 where there is a channel. -/
def byte : MessageType → UInt8
  | noteOff => 0x80
  | noteOn => 0x90
  | keyPressure => 0xA0
  | controlChange => 0xB0
  | programChange => 0xC0
  | channelPressure => 0xD0
  | pitchBend => 0xE0
  | sysExStart => 0xF0
  | mtcQuarterFrame => 0xF1
  | songPositionPointer => 0xF2
  | songSelect => 0xF3
  | undefinedSysCommon1 => 0xF4
  | undefinedSysCommon2 => 0xF5
  | tuneRequest => 0xF6
  | sysExEnd => 0xF7
  | timingClock => 0xF8
  | undefinedRealTime1 => 0xF9
  | start => 0xFA
  | resume => 0xFB
  | stop => 0xFC
  | undefinedRealTime2 => 0xFD
  | activeSensing => 0xFE
  | systemReset => 0xFF

/-- The name of a type, as it is shown to the user. -/
def name : MessageType → String
  | noteOff => "NoteOff"
  | noteOn => "NoteOn"
  | keyPressure => "KeyPressure"
  | controlChange => "ControlChange"
  | programChange => "ProgramChange"
  | channelPressure => "ChannelPressure"
  | pitchBend => "PitchBend"
  | sysExStart => "SysExStart"
  | mtcQuarterFrame => "MtcQuarterFrame"
  | songPositionPointer => "SongPositionPointer"
  | songSelect => "SongSelect"
  | undefinedSysCommon1 => "UndefinedSysCommon1"
  | undefinedSysCommon2 => "UndefinedSysCommon2"
  | tuneRequest => "TuneRequest"
  | sysExEnd => "SysExEnd"
  | timingClock => "TimingClock"
  | undefinedRealTime1 => "UndefinedRealTime1"
  | start => "Start"
  | resume => "Continue"
  | stop => "Stop"
  | undefinedRealTime2 => "UndefinedRealTime2"
  | activeSensing => "ActiveSensing"
  | systemReset => "SystemReset"

/-- The type with exactly this status byte. -/
def ofByte? (byte : UInt8) : Option MessageType :=
  all.find? (·.byte == byte)

/-- The type of a status byte, whatever its channel. Data bytes have none. -/
def ofStatus? (status : UInt8) : Option MessageType :=
  match ByteClass.of status with
  | .data => none
  | .channelStatus => ofByte? (status &&& 0xF0)
  | _ => ofByte? status

/-- Types whose messages belong to one of the sixteen channels. -/
def isChannelMessage (type : MessageType) : Bool := type.byte < 0xF0

/-- Types whose messages are single bytes that may appear anywhere. -/
def isRealTime (type : MessageType) : Bool := MidiTransport.isRealTime type.byte

/-- Reading a type's own status byte gives the type back. -/
theorem ofByte?_byte (type : MessageType) : ofByte? type.byte = some type := by
  cases type <;> rfl

/-- A type found for a byte has that byte. -/
theorem byte_of_ofByte? {byte : UInt8} {type : MessageType}
    (found : ofByte? byte = some type) : type.byte = byte := by
  simpa using List.find?_some found

end MessageType

end MidiTransport
