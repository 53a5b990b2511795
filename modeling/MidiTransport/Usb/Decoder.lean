import MidiTransport.Message.Event
import MidiTransport.SysEx.Assembly
import MidiTransport.Usb.EventPacket

/-!
# Decoding USB-MIDI packets

A packet holds a whole message or up to three bytes of a system exclusive message.
Each cable assembles its own system exclusive message. When a packet does not fit
into the piece under way, the piece is announced first and the packet is held back.

A packet of four zeros means that there is nothing to read: it ends a pull, and the
packets behind it wait for the next one.
-/

namespace MidiTransport.Usb

open SysEx (Assembly)

/-- The state of a decoder for one endpoint. -/
structure Decoder where
  /-- The last channel message. -/
  channel : ChannelMessage
  /-- The last system common message. -/
  common : CommonMessage
  /-- The last real-time message. -/
  realTime : RealTimeMessage
  /-- The system exclusive message of each cable. -/
  assemblies : Vector Assembly Cable.count
  /-- The cable whose system exclusive message was announced last. -/
  active : Cable
  /-- A packet that has been read and is still to be acted on. -/
  held : Option EventPacket
  deriving DecidableEq, Repr

/-- The outcome of one pull. -/
structure Pull where
  decoder : Decoder
  /-- What has been found, if there is anything. -/
  event? : Option Event
  /-- The packets that have not been read. -/
  rest : List EventPacket

/-- May another pull find a message? -/
def Pull.more (pull : Pull) : Bool := pull.event?.isSome || !pull.rest.isEmpty

namespace Decoder

/-- A decoder that has not read any packet. -/
def initial : Decoder where
  channel := .blank
  common := .blank
  realTime := .blank
  assemblies := Vector.replicate _ .idle
  active := .first
  held := none

/-- The system exclusive message that a cable assembles. -/
def assembly (decoder : Decoder) (cable : Cable) : Assembly := decoder.assemblies[cable.index]

def setAssembly (decoder : Decoder) (cable : Cable) (assembly : Assembly) : Decoder :=
  { decoder with assemblies := decoder.assemblies.set cable.index assembly }

/-- The piece of a system exclusive message that can be read now. -/
def sysExPiece (decoder : Decoder) : SysExPiece :=
  (decoder.assembly decoder.active).piece decoder.active

/-- Announce a channel message. -/
def announceChannel (decoder : Decoder) (message : ChannelMessage) : Decoder × Option Event :=
  ({ decoder with channel := message }, some (.channel message))

/-- Announce a system common message. -/
def announceCommon (decoder : Decoder) (message : CommonMessage) : Decoder × Option Event :=
  ({ decoder with common := message }, some (.common message))

/-- Announce what a cable has assembled of a message that goes on. -/
def announceChunk (decoder : Decoder) (cable : Cable) : Decoder × Option Event :=
  let next := { decoder with active := cable }
  (next, some (.sysExChunk next.sysExPiece))

/-- Announce the end of the message that a cable has assembled. -/
def announceEnd (decoder : Decoder) (cable : Cable) : Decoder × Option Event :=
  let next := { decoder with active := cable }
  (next, some (.sysExMessage next.sysExPiece))

/-- The assembly that the bytes of a packet go to. A packet that starts with the start
byte opens a new message, whatever was open before. -/
def opened (decoder : Decoder) (packet : EventPacket) : Assembly :=
  let assembly := decoder.assembly packet.cable
  if packet.byte1 = sysExStart then assembly.start else assembly

/-- Act on a packet with the next `count` bytes of a system exclusive message, which
may be its last ones. The packet is skipped if no message is open. -/
def takeSysEx (decoder : Decoder) (packet : EventPacket) (count : Nat) (ends : Bool) :
    Decoder × Option Event :=
  let cable := packet.cable
  let opened := decoder.opened packet
  if opened.receiving then
    if opened.hasRoom count then
      let filled := opened.append (packet.bytes.take count)
      if ends then (decoder.setAssembly cable filled.finish).announceEnd cable
      else (decoder.setAssembly cable filled, none)
    else { decoder.setAssembly cable opened.handOut with held := some packet }.announceChunk cable
  else (decoder, none)

/-- Act on a packet with a single byte. It is a real-time message, or a system common
message without data from a device that sends these so. -/
def takeSingleByte (decoder : Decoder) (packet : EventPacket) : Decoder × Option Event :=
  let byte := packet.byte1
  match ByteClass.of byte with
  | .realTime =>
    let message : RealTimeMessage := ⟨byte, packet.cable⟩
    ({ decoder with realTime := message }, some (.realTime message))
  | .systemCommon =>
    if systemCommonDataCount byte = 0 then decoder.announceCommon ⟨byte, 0, 0, packet.cable⟩
    else (decoder, none)
  | _ => (decoder, none)

/-- Act on one packet. -/
def feed (decoder : Decoder) (packet : EventPacket) : Decoder × Option Event :=
  match packet.code with
  | .miscFunctionCodes | .cableEvents => (decoder, none)
  | .systemCommon2 | .systemCommon3 =>
    decoder.announceCommon ⟨packet.byte1, packet.byte2, packet.byte3, packet.cable⟩
  | .sysExContinues => decoder.takeSysEx packet 3 false
  | .sysExEnds1 =>
    if packet.byte1 = sysExEnd then decoder.takeSysEx packet 1 true
    else decoder.announceCommon ⟨packet.byte1, 0, 0, packet.cable⟩
  | .sysExEnds2 => decoder.takeSysEx packet 2 true
  | .sysExEnds3 => decoder.takeSysEx packet 3 true
  | .noteOff | .noteOn | .keyPressure | .controlChange | .programChange | .channelPressure
  | .pitchBend =>
    decoder.announceChannel ⟨packet.byte1, packet.byte2, packet.byte3, packet.cable⟩
  | .singleByte => decoder.takeSingleByte packet

/-- Act on the packet that has been held back, if there is one. -/
def resume (decoder : Decoder) : Decoder × Option Event :=
  match decoder.held with
  | none => (decoder, none)
  | some packet => { decoder with held := none }.feed packet

/-- Read packets up to the first one that completes a message or is zero. -/
def scan (decoder : Decoder) : List EventPacket → Pull
  | [] => ⟨decoder, none, []⟩
  | packet :: rest =>
    if packet = .zero then ⟨decoder, none, rest⟩
    else match decoder.feed packet with
      | (next, some event) => ⟨next, some event, rest⟩
      | (next, none) => next.scan rest

/-- Act on a packet that was held back and then read packets, up to the next message. -/
def pull (decoder : Decoder) (input : List EventPacket) : Pull :=
  match decoder.resume with
  | (next, some event) => ⟨next, some event, input⟩
  | (next, none) => next.scan input

end Decoder

end MidiTransport.Usb
