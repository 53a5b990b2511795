import Mathlib.Data.List.Basic
import MidiTransport.Proofs.Usb.Groups

/-!
# A decoder that follows an encoder

Messages of all cables share one sequence of packets. An encoder keeps, for each cable, the
bytes of a piece that do not fill a group, and a decoder keeps what it has not announced yet.
`Follows` relates the two to what has been sent and announced on every cable, and one more
message keeps them related (`Follows.encode`). So a decoder finds the messages of an encoder
again, in order and on their cables, up to the way in which system exclusive messages are cut
(`gathered_drain_encodeAll`).
-/

namespace MidiTransport

/-! ## Start bytes -/

section

variable {bytes body : List UInt8}

/-- Bytes below the start byte do not start a message. -/
theorem ne_sysExStart_of_lt {byte : UInt8} (low : byte < 0xF0) : byte ≠ sysExStart := by
  rintro rfl
  exact absurd low (by decide)

/-- A start byte in front of other bytes is the only one. -/
theorem startsOnce_cons (low : ∀ byte ∈ body, byte ≠ sysExStart) :
    Usb.StartsOnce (sysExStart :: body) := by
  intro front byte back split
  cases front with
  | nil =>
    obtain ⟨rfl, -⟩ := List.cons.inj split
    simp
  | cons first rest =>
    obtain ⟨-, rfl⟩ := List.cons.inj split
    simpa using low byte (by simp)

/-- A message that has been begun has one start byte. -/
theorem IsBegun.startsOnce (begun : IsBegun bytes) : Usb.StartsOnce bytes := by
  rcases begun with rfl | ⟨body, low, rfl⟩
  · intro front byte back split
    simp at split
  · exact startsOnce_cons fun byte member => ne_sysExStart_of_lt (low byte member)

/-- A whole message has one start byte. -/
theorem IsWhole.startsOnce (whole : IsWhole bytes) : Usb.StartsOnce bytes := by
  obtain ⟨body, low, rfl⟩ := whole
  apply startsOnce_cons
  intro byte member
  rcases List.mem_append.mp member with inside | last
  · exact ne_sysExStart_of_lt (low byte inside)
  · obtain rfl := List.mem_singleton.mp last
    decide

/-- A whole message ends with its end byte. -/
theorem IsWhole.getLast?_eq (whole : IsWhole bytes) : bytes.getLast? = some sysExEnd := by
  obtain ⟨body, -, rfl⟩ := whole
  exact List.getLast?_concat

end

namespace Usb

/-! ## Messages of one packet -/

/-- The code indices of channel messages. -/
def CodeIndex.ofChannelMessages : List CodeIndex :=
  [noteOff, noteOn, keyPressure, controlChange, programChange, channelPressure, pitchBend]

/-- Each channel status has a code of its own. -/
theorem CodeIndex.exists_of_channelStatus {header : UInt8}
    (kind : ByteClass.of header = .channelStatus) :
    ∃ code ∈ ofChannelMessages, ofChannelStatus? header = some code := by
  revert header
  rintro ⟨bits⟩
  revert bits
  decide +kernel

namespace Decoder

variable {decoder : Decoder}

/-- Reading these packets yields one message, and leaves the system exclusive messages alone. -/
structure Announces (decoder : Decoder) (packets : List EventPacket) (message : Message) :
    Prop where
  found : decoder.messages packets = [message]
  assemblies : (decoder.drain packets).2.assemblies = decoder.assemblies

/-- A packet that brings a message at once announces it. -/
theorem announces_packet {packet : EventPacket} {next : Decoder} {event : Event}
    (clear : decoder.held = none) (nonzero : packet ≠ .zero)
    (fed : decoder.feed packet = (next, some event)) (still : next.held = none)
    (kept : next.assemblies = decoder.assemblies) :
    decoder.Announces [packet] event.message := by
  have drained := drain_packet clear nonzero
  rw [fed, drain_nil still] at drained
  constructor
  · rw [messages, drained]
    rfl
  · rw [drained]
    exact kept

/-- All codes of channel messages are read in the same way. -/
theorem feed_of_channelMessage {packet : EventPacket}
    (member : packet.code ∈ CodeIndex.ofChannelMessages) :
    decoder.feed packet =
      decoder.announceChannel ⟨packet.byte1, packet.byte2, packet.byte3, packet.cable⟩ := by
  rw [feed]
  revert member
  cases packet.code <;> simp [CodeIndex.ofChannelMessages]

/-- The packet of a channel message announces it. Data that the message does not use have to be
zero. -/
theorem announces_channel {message : ChannelMessage} (clear : decoder.held = none)
    (kind : ByteClass.of message.header = .channelStatus)
    (unused : message.hasTwoDataBytes = false → message.data2 = 0) :
    decoder.Announces (Encoder.encodeChannel message) (.channel message) := by
  obtain ⟨code, member, found⟩ := CodeIndex.exists_of_channelStatus kind
  have encoded : Encoder.encodeChannel message =
      [.ofBytes message.cable code (message.header :: message.dataBytes)] := by
    rw [Encoder.encodeChannel, found]
  generalize wrapped : EventPacket.ofBytes message.cable code
    (message.header :: message.dataBytes) = packet at encoded
  have own : packet.code = code := wrapped ▸ EventPacket.code_ofBytes ..
  have read : ⟨packet.byte1, packet.byte2, packet.byte3, packet.cable⟩ = message := by
    subst wrapped
    rw [EventPacket.cable_ofBytes]
    cases two : message.hasTwoDataBytes with
    | false => simp [ChannelMessage.dataBytes, two, ← unused two]
    | true => simp [ChannelMessage.dataBytes, two]
  have fed : decoder.feed packet = decoder.announceChannel message := by
    rw [feed_of_channelMessage (own ▸ member), read]
  have nonzero : packet ≠ .zero := by
    rintro rfl
    subst own
    exact absurd member (by decide)
  rw [encoded]
  exact announces_packet clear nonzero fed clear rfl

/-- A common message has two data bytes at most. -/
theorem systemCommonDataCount_cases (status : UInt8) :
    systemCommonDataCount status = 0 ∨ systemCommonDataCount status = 1 ∨
      systemCommonDataCount status = 2 := by
  unfold systemCommonDataCount
  split
  · exact .inr (.inr rfl)
  · split
    · exact .inr (.inl rfl)
    · exact .inl rfl

/-- The packet of a common message announces it. Data that the message does not use have to be zero.
-/
theorem announces_common {message : CommonMessage} (clear : decoder.held = none)
    (kind : ByteClass.of message.header = .systemCommon)
    (unused1 : message.dataCount < 1 → message.data1 = 0)
    (unused2 : message.dataCount < 2 → message.data2 = 0) :
    decoder.Announces [Encoder.encodeCommon message] (.common message) := by
  have notEnd : message.header ≠ sysExEnd := by
    intro same
    rw [same] at kind
    exact absurd kind (by decide)
  have fed : decoder.feed (Encoder.encodeCommon message) = decoder.announceCommon message := by
    obtain ⟨header, data1, data2, cable⟩ := message
    rcases systemCommonDataCount_cases header with bare | one | two
    · obtain rfl : data1 = 0 := unused1 (by simp [CommonMessage.dataCount, bare])
      obtain rfl : data2 = 0 := unused2 (by simp [CommonMessage.dataCount, bare])
      simp [Encoder.encodeCommon, CommonMessage.dataBytes, CommonMessage.dataCount, feed, bare,
        notEnd]
    · obtain rfl : data2 = 0 := unused2 (by simp [CommonMessage.dataCount, one])
      simp [Encoder.encodeCommon, CommonMessage.dataBytes, CommonMessage.dataCount, feed, one]
    · simp [Encoder.encodeCommon, CommonMessage.dataBytes, CommonMessage.dataCount, feed, two]
  have nonzero : Encoder.encodeCommon message ≠ .zero := by
    apply EventPacket.ne_zero_of_code
    rw [Encoder.encodeCommon, EventPacket.code_ofBytes]
    split <;> simp
  exact announces_packet clear nonzero fed clear rfl

/-- The packet of a real-time message announces it. -/
theorem announces_realTime {message : RealTimeMessage} (clear : decoder.held = none)
    (valid : message.isValid = true) :
    decoder.Announces [.ofBytes message.cable .singleByte [message.byte]] (.realTime message) := by
  have kind : ByteClass.of message.byte = .realTime := by
    simpa [RealTimeMessage.isValid, isRealTime] using valid
  have fed : decoder.feed (.ofBytes message.cable .singleByte [message.byte]) =
      ({ decoder with realTime := message }, some (.realTime message)) := by
    simp [feed, takeSingleByte, kind]
  exact announces_packet clear (EventPacket.ne_zero_of_code (by simp)) fed clear rfl

end Decoder

/-! ## The conversation -/

namespace Encoder

/-- The bytes that wait for a cable's next piece. -/
def waiting (encoder : Encoder) (cable : Cable) : List UInt8 :=
  encoder.pending.get cable.index

/-- The bytes of a piece, behind those that its message has waiting. -/
def due (encoder : Encoder) (piece : SysExPiece) : List UInt8 :=
  (if piece.first then [] else encoder.waiting piece.cable) ++ piece.data

variable {piece : SysExPiece}

/-- A last piece sends all bytes that are due, and ends the message. -/
theorem encode_of_last (encoder : Encoder) (last : piece.last = true) :
    (encoder.encode (.sysEx piece)).1 = lastGroups piece.cable (encoder.due piece) := by
  rw [encode, encodeSysEx, if_pos last]
  rfl

/-- Any other piece sends the full groups of the bytes that are due, and the rest of them waits. -/
theorem encode_of_open (encoder : Encoder) (goesOn : piece.last = false) :
    (encoder.encode (.sysEx piece)).1 = (groups piece.cable (encoder.due piece)).1 ∧
      (encoder.encode (.sysEx piece)).2.waiting piece.cable =
        (groups piece.cable (encoder.due piece)).2 := by
  rw [encode, encodeSysEx, if_neg (by simp [goesOn])]
  exact ⟨rfl, Vector.getElem_set_self piece.cable.index.isLt⟩

/-- A piece leaves the bytes of other cables waiting. -/
theorem waiting_encode_of_ne (encoder : Encoder) {other : Cable} (elsewhere : other ≠ piece.cable) :
    (encoder.encode (.sysEx piece)).2.waiting other = encoder.waiting other := by
  have apart := index_ne_of_ne elsewhere
  rw [encode, encodeSysEx]
  split
  · exact Vector.getElem_set_ne piece.cable.index.isLt other.index.isLt apart
  · exact Vector.getElem_set_ne piece.cable.index.isLt other.index.isLt apart

end Encoder

variable {encoder : Encoder} {decoder : Decoder} {unfinished : Cable → Bool}
  {held heard : Cable → List UInt8}

/-- Of every unfinished message the decoder has received what has been sent, except for the bytes
that wait in the encoder. -/
structure Follows (encoder : Encoder) (decoder : Decoder) (unfinished : Cable → Bool)
    (held heard : Cable → List UInt8) : Prop where
  clear : decoder.held = none
  tracks (cable : Cable) (open_ : unfinished cable = true) :
    ∃ received, held cable = received ++ encoder.waiting cable ∧
      decoder.Receives cable heard received

theorem follows_initial :
    Follows .initial .initial (fun _ => false) (fun _ => []) (fun _ => []) where
  clear := rfl
  tracks _ open_ := by cases open_

/-- The packets of a message let the decoder find what has been sent, and follow the encoder. -/
structure Finds (encoder : Encoder) (decoder : Decoder) (unfinished : Cable → Bool)
    (held heard : Cable → List UInt8) (message : Message) : Prop where
  found : (gathered heard (decoder.messages (encoder.encode message).1)).1 = (gather held message).1
  follows : Follows (encoder.encode message).2 (decoder.drain (encoder.encode message).1).2
    (message.unfinishedAfter unfinished) (gather held message).2
    (gathered heard (decoder.messages (encoder.encode message).1)).2

/-- A message of one packet does not touch the system exclusive messages under way. -/
theorem Follows.finds_announced {message : Message}
    (follows : Follows encoder decoder unfinished held heard)
    (announces : decoder.Announces (encoder.encode message).1 message)
    (silent : (encoder.encode message).2 = encoder)
    (whole : ∀ held : Cable → List UInt8, gather held message = ([message], held))
    (same : message.unfinishedAfter unfinished = unfinished) :
    Finds encoder decoder unfinished held heard message := by
  have gathers : gathered heard (decoder.messages (encoder.encode message).1) =
      ([message], heard) := by
    rw [announces.found, gathered_singleton, whole]
  constructor
  · rw [gathers, whole]
  · rw [gathers, whole, silent, same]
    constructor
    · exact decoder.held_drain _
    · intro cable open_
      obtain ⟨received, sent, receives⟩ := follows.tracks cable open_
      refine ⟨received, sent, fun some => ?_⟩
      have kept : (decoder.drain (encoder.encode message).1).2.assembly cable =
          decoder.assembly cable := by
        rw [Decoder.assembly, announces.assemblies, Decoder.assembly]
      rw [kept]
      exact receives some

/-- The bytes of a message up to a piece are those that the decoder has received, those that
wait in the encoder, and those of the piece. -/
theorem Follows.exists_received {piece : SysExPiece}
    (follows : Follows encoder decoder unfinished held heard)
    (fits : piece.first = true ∨ unfinished piece.cable = true) :
    ∃ received, decoder.Receives piece.cable heard received ∧
      piece.behind held = received ++ encoder.due piece := by
  cases first : piece.first with
  | true => exact ⟨[], fun some => absurd rfl some, by simp [SysExPiece.behind, Encoder.due, first]⟩
  | false =>
    have open_ : unfinished piece.cable = true := by simpa [first] using fits
    obtain ⟨received, sent, receives⟩ := follows.tracks piece.cable open_
    exact ⟨received, receives, by simp [SysExPiece.behind, Encoder.due, first, sent]⟩

/-- Packets that add the bytes of a piece, but for those left over, keep the decoder with the
encoder. -/
theorem Follows.of_adds {piece : SysExPiece} {received added : List UInt8}
    (follows : Follows encoder decoder unfinished held heard)
    (adds : decoder.Adds (encoder.encode (.sysEx piece)).1 piece.cable heard received added
      piece.last)
    (sent : piece.last = false → piece.behind held =
      received ++ added ++ (encoder.encode (.sysEx piece)).2.waiting piece.cable) :
    Follows (encoder.encode (.sysEx piece)).2
      (decoder.drain (encoder.encode (.sysEx piece)).1).2
      ((Message.sysEx piece).unfinishedAfter unfinished) (gather held (.sysEx piece)).2
      (gathered heard (decoder.messages (encoder.encode (.sysEx piece)).1)).2 := by
  constructor
  · exact decoder.held_drain _
  · intro cable open_
    -- On the piece's own cable the bytes left over wait; all other cables take no notice.
    by_cases own : cable = piece.cable
    · subst own
      have further : piece.last = false := by
        simpa [Message.unfinishedAfter] using open_
      refine ⟨received ++ added, ?_, adds.receives further⟩
      rw [gather_of_open further]
      exact (Function.update_self ..).trans (sent further)
    · have before : unfinished cable = true := by
        rwa [Message.unfinishedAfter, Function.update_of_ne own] at open_
      obtain ⟨others, same, receives⟩ := follows.tracks cable before
      refine ⟨others, ?_, fun some => ?_⟩
      · rw [gather_elsewhere own, same, encoder.waiting_encode_of_ne own]
      · rw [adds.assemblyElsewhere cable own, adds.heardElsewhere cable own]
        exact receives some

/-- A piece that is not the last one keeps the decoder with the encoder. -/
theorem Follows.finds_open {piece : SysExPiece}
    (follows : Follows encoder decoder unfinished held heard)
    (fits : piece.first = true ∨ unfinished piece.cable = true)
    (once : StartsOnce (piece.behind held)) (goesOn : piece.last = false) :
    Finds encoder decoder unfinished held heard (.sysEx piece) := by
  obtain ⟨received, receives, sent⟩ := follows.exists_received fits
  obtain ⟨packets, left⟩ := encoder.encode_of_open goesOn
  obtain ⟨taken, all, adds⟩ := Decoder.adds_groups follows.clear receives (sent ▸ once)
  rw [← packets] at adds
  constructor
  · rw [adds.found, gather_of_open goesOn]
    rfl
  · exact follows.of_adds (goesOn ▸ adds) fun _ => by rw [left, List.append_assoc, all, sent]

/-- A last piece completes its message, unless its last group has a single byte that is not the
end byte. -/
theorem Follows.finds_last {piece : SysExPiece}
    (follows : Follows encoder decoder unfinished held heard)
    (fits : piece.first = true ∨ unfinished piece.cable = true)
    (once : StartsOnce (piece.behind held)) (last : piece.last = true)
    (nonempty : piece.data ≠ [])
    (ending : (encoder.due piece).length % 3 = 1 → piece.data.getLast? = some sysExEnd) :
    Finds encoder decoder unfinished held heard (.sysEx piece) := by
  obtain ⟨received, receives, sent⟩ := follows.exists_received fits
  have more : encoder.due piece ≠ [] := List.append_ne_nil_of_right_ne_nil _ nonempty
  have same : (encoder.due piece).getLast? = piece.data.getLast? :=
    List.getLast?_append_of_ne_nil _ nonempty
  have adds := Decoder.adds_lastGroups follows.clear receives (sent ▸ once) more (same ▸ ending)
  rw [← encoder.encode_of_last last] at adds
  constructor
  · rw [adds.found, gather_of_last last, sent]
    rfl
  · exact follows.of_adds (last ▸ adds) fun further => by simp [last] at further

/-- The packets of a piece add its bytes to what has been received, up to those that wait. -/
theorem Follows.finds_sysEx {piece : SysExPiece}
    (follows : Follows encoder decoder unfinished held heard)
    (continues : (Message.sysEx piece).ContinuesIn unfinished held) :
    Finds encoder decoder unfinished held heard (.sysEx piece) := by
  obtain ⟨fits, formed⟩ := continues
  cases last : piece.last with
  | true =>
    rw [if_pos last] at formed
    obtain ⟨nonempty, whole⟩ := formed
    have ends : piece.data.getLast? = some sysExEnd := by
      rw [← whole.getLast?_eq, SysExPiece.behind, List.getLast?_append_of_ne_nil _ nonempty]
    exact follows.finds_last fits whole.startsOnce last nonempty fun _ => ends
  | false =>
    rw [if_neg (by simp [last])] at formed
    exact follows.finds_open fits formed.startsOnce last

/-- The packets of a message bring what it completes. -/
theorem Follows.finds {message : Message} (follows : Follows encoder decoder unfinished held heard)
    (continues : message.ContinuesIn unfinished held) :
    Finds encoder decoder unfinished held heard message := by
  cases message with
  | channel message =>
    obtain ⟨kind, unused⟩ := continues
    exact follows.finds_announced (Decoder.announces_channel follows.clear kind unused) rfl
      (fun _ => rfl) rfl
  | common message =>
    obtain ⟨kind, unused1, unused2⟩ := continues
    exact follows.finds_announced (Decoder.announces_common follows.clear kind unused1 unused2) rfl
      (fun _ => rfl) rfl
  | realTime message =>
    exact follows.finds_announced (Decoder.announces_realTime follows.clear continues) rfl
      (fun _ => rfl) rfl
  | sysEx piece => exact follows.finds_sysEx continues

/-- All messages together keep the decoder with the encoder. -/
theorem Follows.gathered_drain {messages : List Message}
    (follows : Follows encoder decoder unfinished held heard)
    (interleaved : Interleaved unfinished held messages) :
    (gathered heard (decoder.messages (encoder.encodeAll messages).1)).1 =
      (gathered held messages).1 := by
  induction messages generalizing encoder decoder unfinished held heard with
  | nil => simp [Encoder.encodeAll, Decoder.messages, Decoder.drain_nil follows.clear, gathered]
  | cons message later ih =>
    obtain ⟨continues, rest⟩ := interleaved
    have here := follows.finds continues
    have packets : (encoder.encodeAll (message :: later)).1 =
        (encoder.encode message).1 ++ ((encoder.encode message).2.encodeAll later).1 := rfl
    rw [packets, Decoder.messages_append, gathered_append, here.found, ih here.follows rest]
    rfl

/-- A decoder finds the messages of an encoder again, in order and on their cables, when the
pieces of every finished system exclusive message are put together. -/
theorem gathered_drain_encodeAll (messages : List Message)
    (interleaved : Interleaved (fun _ => false) (fun _ => []) messages) :
    (gathered (fun _ => []) (Decoder.initial.messages (Encoder.initial.encodeAll messages).1)).1 =
      (gathered (fun _ => []) messages).1 :=
  follows_initial.gathered_drain interleaved

/-- Two cables with a system exclusive message each in several pieces, one of which is abandoned,
and other messages between the pieces. -/
def mixedMessages : List Message :=
  [.sysEx ⟨[0xF0, 0x01, 0x02, 0x80], .ofNibble 5, true, false⟩,
    .sysEx ⟨[0xF0], .first, true, false⟩,
    .channel ⟨0xC5, 0x11, 0, .ofNibble 5⟩,
    .sysEx ⟨[], .ofNibble 5, false, false⟩,
    .sysEx ⟨[0xF0, 0x03], .first, true, false⟩,
    .common ⟨0xF6, 0, 0, .first⟩,
    .sysEx ⟨[0x04, 0xF7], .first, false, true⟩,
    .realTime ⟨0xF8, .ofNibble 5⟩,
    .sysEx ⟨[0x05, 0x06, 0xF7], .ofNibble 5, false, true⟩]

/-- The pieces of both cables come out as whole messages, in the order of their ends, and the
abandoned message does not. -/
theorem gathered_drain_encodeAll_mixedMessages :
    Interleaved (fun _ => false) (fun _ => []) mixedMessages ∧
      (gathered (fun _ => [])
          (Decoder.initial.messages (Encoder.initial.encodeAll mixedMessages).1)).1 =
        [.channel ⟨0xC5, 0x11, 0, .ofNibble 5⟩, .common ⟨0xF6, 0, 0, .first⟩,
          .sysEx ⟨[0xF0, 0x03, 0x04, 0xF7], .first, true, true⟩, .realTime ⟨0xF8, .ofNibble 5⟩,
          .sysEx ⟨[0xF0, 0x01, 0x02, 0x80, 0x05, 0x06, 0xF7], .ofNibble 5, true, true⟩] := by
  have interleaved : Interleaved (fun _ => false) (fun _ => []) mixedMessages := by
    refine ⟨⟨.inl rfl, .inr ⟨[0x01, 0x02, 0x80], by decide +kernel, rfl⟩⟩,
      ⟨.inl rfl, .inr ⟨[], by decide +kernel, rfl⟩⟩, ⟨rfl, fun _ => rfl⟩,
      ⟨.inr rfl, .inr ⟨[0x01, 0x02, 0x80], by decide +kernel, rfl⟩⟩,
      ⟨.inl rfl, .inr ⟨[0x03], by decide +kernel, rfl⟩⟩,
      ⟨rfl, fun _ => rfl, fun _ => rfl⟩,
      ⟨.inr rfl, by decide, [0x03, 0x04], by decide +kernel, rfl⟩, rfl,
      ⟨.inr rfl, by decide, [0x01, 0x02, 0x80, 0x05, 0x06], by decide +kernel, rfl⟩, trivial⟩
  refine ⟨interleaved, ?_⟩
  rw [gathered_drain_encodeAll mixedMessages interleaved]
  rfl

end Usb

end MidiTransport
