import MidiTransport.Usb.EventPacket

/-!
# Encoding messages as USB-MIDI packets

A system exclusive message is cut into groups of three bytes, whatever the lengths
of its pieces. Bytes of a piece that do not fill a group wait, per cable, for the
next piece. The last group of a message has a code of its own, which tells how many
of its bytes count, so a group may only be sent once it is known whether more bytes
follow.
-/

namespace MidiTransport.Usb

/-- The bytes that wait on each cable, at most two. -/
structure Encoder where
  pending : Vector (List UInt8) Cable.count
  deriving DecidableEq, Repr

namespace Encoder

/-- An encoder with nothing waiting. -/
def initial : Encoder := ⟨Vector.replicate _ []⟩

/-- The full groups of an unfinished message, and the bytes that are left over. -/
def groups (cable : Cable) : List UInt8 → List EventPacket × List UInt8
  | byte1 :: byte2 :: byte3 :: rest =>
    let (packets, left) := groups cable rest
    (.ofBytes cable .sysExContinues [byte1, byte2, byte3] :: packets, left)
  | left => ([], left)

/-- The groups of a message that ends with these bytes. The last group holds one to
three bytes; nothing is sent for no bytes. -/
def lastGroups (cable : Cable) : List UInt8 → List EventPacket
  | [] => []
  | [byte1] => [.ofBytes cable .sysExEnds1 [byte1]]
  | [byte1, byte2] => [.ofBytes cable .sysExEnds2 [byte1, byte2]]
  | [byte1, byte2, byte3] => [.ofBytes cable .sysExEnds3 [byte1, byte2, byte3]]
  | byte1 :: byte2 :: byte3 :: rest =>
    .ofBytes cable .sysExContinues [byte1, byte2, byte3] :: lastGroups cable rest

/-- The packets of a piece. A first piece drops what an unfinished message left
behind. -/
def encodeSysEx (encoder : Encoder) (piece : SysExPiece) : List EventPacket × Encoder :=
  let waiting := if piece.first then [] else encoder.pending[piece.cable.index]
  if piece.last then
    (lastGroups piece.cable (waiting ++ piece.data),
      ⟨encoder.pending.set piece.cable.index []⟩)
  else
    let (packets, left) := groups piece.cable (waiting ++ piece.data)
    (packets, ⟨encoder.pending.set piece.cable.index left⟩)

/-- The packets of a channel message. There are none if its header is not the
status byte of a channel message. -/
def encodeChannel (message : ChannelMessage) : List EventPacket :=
  match CodeIndex.ofChannelStatus? message.header with
  | none => []
  | some code => [.ofBytes message.cable code (message.header :: message.dataBytes)]

/-- The packet of a system common message, whose code depends on its length. -/
def encodeCommon (message : CommonMessage) : EventPacket :=
  let code : CodeIndex :=
    match message.dataCount with
    | 0 => .sysExEnds1
    | 1 => .systemCommon2
    | _ => .systemCommon3
  .ofBytes message.cable code (message.header :: message.dataBytes)

/-- The packets of a message, and the encoder behind them. -/
def encode (encoder : Encoder) : Message → List EventPacket × Encoder
  | .channel message => (encodeChannel message, encoder)
  | .common message => ([encodeCommon message], encoder)
  | .realTime message => ([.ofBytes message.cable .singleByte [message.byte]], encoder)
  | .sysEx piece => encoder.encodeSysEx piece

/-- The packets of several messages, and the encoder behind them. -/
def encodeAll (encoder : Encoder) : List Message → List EventPacket × Encoder
  | [] => ([], encoder)
  | message :: later =>
    let (packets, next) := encoder.encode message
    let (more, final) := next.encodeAll later
    (packets ++ more, final)

/-- The bytes left over never fill a group. -/
theorem length_groups_lt (cable : Cable) (bytes : List UInt8) :
    (groups cable bytes).2.length < 3 := by
  fun_induction groups cable bytes with
  | case1 _ _ _ _ _ _ equation ih => simpa [equation] using ih
  | case2 left short =>
    match left with
    | [] | [_] | [_, _] => simp
    | byte1 :: byte2 :: byte3 :: rest => exact absurd rfl (short byte1 byte2 byte3 rest)

end Encoder

end MidiTransport.Usb
