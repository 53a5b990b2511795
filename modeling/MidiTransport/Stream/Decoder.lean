import MidiTransport.Message.Event
import MidiTransport.SysEx.Assembly

/-!
# Decoding a MIDI byte stream

A decoder reads one byte at a time and announces a message with the byte that
completes it. Three rules shape its state:

- Data bytes without a status byte of their own repeat the status of the last
  channel message, the running status.
- A status byte ends an open system exclusive message. That byte then belongs to
  the next message, so the decoder holds it back until the ended message has been
  taken.
- A piece of a system exclusive message that is full is announced before the byte
  that no longer fits, and that byte is held back too.

`Decoder.feed` acts on one byte and `Decoder.pull` reads up to the next message.
-/

namespace MidiTransport.Stream

open SysEx (Assembly)

/-- The state of a decoder for a stream on the first cable. -/
structure Decoder where
  /-- System common messages leave the running status alone. -/
  keepsRunning : Bool
  /-- The last channel message, or as much of it as has been read. -/
  channel : ChannelMessage
  /-- The last system common message, or as much of it as has been read. -/
  common : CommonMessage
  /-- The last real-time message. -/
  realTime : RealTimeMessage
  sysEx : Assembly
  /-- The status that the next data byte belongs to. -/
  current : Option UInt8
  /-- The status of the last channel message, if data bytes may still repeat it. -/
  running : Option UInt8
  /-- The message under way has its first data byte and lacks the second. -/
  awaitsSecond : Bool
  /-- A byte that has been read and is still to be acted on. -/
  held : Option UInt8
  deriving DecidableEq, Repr

/-- The outcome of one pull. -/
structure Pull where
  decoder : Decoder
  /-- What has been found. There is nothing if the input ran out. -/
  event? : Option Event
  /-- The input that has not been read. -/
  rest : List UInt8

namespace Decoder

/-- A decoder at the start of a stream. -/
def initial (keepsRunning : Bool) : Decoder where
  keepsRunning
  channel := .blank
  common := .blank
  realTime := .blank
  sysEx := .idle
  current := none
  running := none
  awaitsSecond := false
  held := none

/-- The piece of a system exclusive message that can be read now. -/
def sysExPiece (decoder : Decoder) : SysExPiece := decoder.sysEx.piece .first

/-- Announce the bytes collected so far as a piece and hold back the byte that
does not fit. -/
def handOut (decoder : Decoder) (byte : UInt8) : Decoder × Option Event :=
  let next := { decoder with sysEx := decoder.sysEx.handOut, held := some byte }
  (next, some (.sysExChunk next.sysExPiece))

/-- Act on a status byte that arrives inside a system exclusive message. Its own
end byte belongs to the message; any other status byte cuts the message short and
is held back. -/
def closeSysEx (decoder : Decoder) (status : UInt8) : Decoder × Option Event :=
  if status = sysExEnd then
    if decoder.sysEx.hasRoom 1 then
      let next := { decoder with
        sysEx := (decoder.sysEx.append [sysExEnd]).finish
        current := decoder.running }
      (next, some (.sysExMessage next.sysExPiece))
    else decoder.handOut status
  else
    let next := { decoder with
      sysEx := decoder.sysEx.finish
      current := decoder.running
      held := some status }
    (next, some (.sysExMessage next.sysExPiece))

/-- Open a system common message, which is complete at once if it has no data. -/
def openCommon (decoder : Decoder) (status : UInt8) : Decoder × Option Event :=
  let running := if decoder.keepsRunning then decoder.running else none
  if systemCommonDataCount status = 0 then
    let message : CommonMessage := ⟨status, 0, 0, .first⟩
    ({ decoder with common := message, current := running, running, awaitsSecond := false },
      some (.common message))
  else ({ decoder with current := some status, running, awaitsSecond := false }, none)

/-- Act on a status byte of a message that is not real-time. An end byte outside a
system exclusive message is skipped. -/
def takeStatus (decoder : Decoder) (status : UInt8) : Decoder × Option Event :=
  if decoder.sysEx.receiving then decoder.closeSysEx status
  else match ByteClass.of status with
    | .sysExStart =>
      ({ decoder with
          sysEx := decoder.sysEx.start.append [sysExStart]
          current := some sysExStart
          running := none
          awaitsSecond := false },
        none)
    | .channelStatus =>
      ({ decoder with current := some status, running := some status, awaitsSecond := false },
        none)
    | .systemCommon => decoder.openCommon status
    | _ => (decoder, none)

/-- Act on a data byte of a channel message. -/
def takeChannelData (decoder : Decoder) (header data : UInt8) : Decoder × Option Event :=
  if decoder.awaitsSecond then
    let message := { decoder.channel with data2 := data }
    ({ decoder with channel := message, awaitsSecond := false }, some (.channel message))
  else
    let message : ChannelMessage := ⟨header, data, 0, .first⟩
    if hasTwoDataBytes header then
      ({ decoder with channel := message, awaitsSecond := true }, none)
    else ({ decoder with channel := message }, some (.channel message))

/-- Act on a data byte of a system common message. The message gives way to the
running status once it is complete. -/
def takeCommonData (decoder : Decoder) (header data : UInt8) : Decoder × Option Event :=
  if decoder.awaitsSecond then
    let message := { decoder.common with data2 := data }
    ({ decoder with common := message, current := decoder.running, awaitsSecond := false },
      some (.common message))
  else
    let message : CommonMessage := ⟨header, data, 0, .first⟩
    if systemCommonDataCount header = 2 then
      ({ decoder with common := message, awaitsSecond := true }, none)
    else
      ({ decoder with common := message, current := decoder.running }, some (.common message))

/-- Act on a data byte. Without a status that it could belong to it is skipped. -/
def takeData (decoder : Decoder) (data : UInt8) : Decoder × Option Event :=
  match decoder.current with
  | none => (decoder, none)
  | some header =>
    match ByteClass.of header with
    | .sysExStart =>
      if decoder.sysEx.hasRoom 1 then
        ({ decoder with sysEx := decoder.sysEx.append [data] }, none)
      else decoder.handOut data
    | .channelStatus => decoder.takeChannelData header data
    | _ => decoder.takeCommonData header data

/-- Act on one byte. A real-time byte is a message of its own and leaves all else
as it was. -/
def feed (decoder : Decoder) (byte : UInt8) : Decoder × Option Event :=
  match ByteClass.of byte with
  | .data => decoder.takeData byte
  | .realTime =>
    let message : RealTimeMessage := ⟨byte, .first⟩
    ({ decoder with realTime := message }, some (.realTime message))
  | _ => decoder.takeStatus byte

/-- Act on the byte that has been held back, if there is one. -/
def resume (decoder : Decoder) : Decoder × Option Event :=
  match decoder.held with
  | none => (decoder, none)
  | some byte => { decoder with held := none }.feed byte

/-- Read bytes up to the first one that completes a message. -/
def scan (decoder : Decoder) : List UInt8 → Pull
  | [] => ⟨decoder, none, []⟩
  | byte :: rest =>
    match decoder.feed byte with
    | (next, some event) => ⟨next, some event, rest⟩
    | (next, none) => next.scan rest

/-- Act on a byte that was held back and then read bytes, up to the next message. -/
def pull (decoder : Decoder) (input : List UInt8) : Pull :=
  match decoder.resume with
  | (next, some event) => ⟨next, some event, input⟩
  | (next, none) => next.scan input

end Decoder

end MidiTransport.Stream
