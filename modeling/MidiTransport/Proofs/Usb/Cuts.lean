import MidiTransport.Proofs.Usb.Conversation

/-!
# How a system exclusive message is cut makes no difference

A sender may cut a system exclusive message into pieces of any length and send other messages
between them. The encoder holds back what does not fill a group, so its packets are the same for
every cut (`Encoder.finishes_cutPieces`): full groups, and behind them a last group of one to three
bytes (`Grouped`). Only the pieces of a cable count for the packets of that cable
(`Encoder.sysExOutput_eq`), and of these packets none is mixed up with others
(`Encoder.sysExOutput_eq_filter`).
-/

namespace MidiTransport

/-- The pieces of a message behind its first one: any number of middle ones, and a last one. -/
def laterPieces (cable : Cable) (middle : List (List UInt8)) (back : List UInt8) :
    List SysExPiece :=
  middle.map (⟨·, cable, false, false⟩) ++ [⟨back, cable, false, true⟩]

/-- A message in pieces. -/
def cutPieces (cable : Cable) (front : List UInt8) (middle : List (List UInt8))
    (back : List UInt8) : List SysExPiece :=
  ⟨front, cable, true, false⟩ :: laterPieces cable middle back

/-- A system common message of a single byte, whose packet has the code of the last byte of a system
exclusive message. -/
def Message.sharesCode : Message → Bool
  | common message => message.dataCount == 0
  | _ => false

namespace Usb

/-! ## Packets of a message -/

/-- The number of bytes of a system exclusive message in a packet with this code. -/
def CodeIndex.sysExLength : CodeIndex → Nat
  | sysExContinues | sysExEnds3 => 3
  | sysExEnds2 => 2
  | sysExEnds1 => 1
  | _ => 0

namespace EventPacket

/-- The bytes of a system exclusive message in a packet. -/
def payload (packet : EventPacket) : List UInt8 := packet.bytes.take packet.code.sysExLength

/-- The bytes that fill up a packet. -/
def padding (packet : EventPacket) : List UInt8 := packet.bytes.drop packet.code.sysExLength

/-- A packet of this cable whose code stands for a system exclusive message. -/
def isSysExOn (cable : Cable) (packet : EventPacket) : Bool :=
  packet.cable == cable && packet.code.sysExLength != 0

end EventPacket

/-- The packets of a whole message: full groups that leave it open, and a last one that ends it. -/
structure Grouped (cable : Cable) (bytes : List UInt8) (packets : List EventPacket) : Prop where
  payload : packets.flatMap (·.payload) = bytes
  padding : ∀ packet ∈ packets, ∀ byte ∈ packet.padding, byte = 0
  cable : ∀ packet ∈ packets, packet.cable = cable
  codes : ∃ full last, packets = full ++ [last] ∧
    (∀ packet ∈ full, packet.code = .sysExContinues) ∧
    last.code ∈ [CodeIndex.sysExEnds1, .sysExEnds2, .sysExEnds3]

section Groups

variable {cable : Cable} {bytes : List UInt8}

/-- A last group has a code of its own for each length, and is filled up with zeros. -/
theorem grouped_last {code : CodeIndex} (cable : Cable)
    (ends : code ∈ [CodeIndex.sysExEnds1, .sysExEnds2, .sysExEnds3])
    (length : bytes.length = code.sysExLength) :
    Grouped cable bytes [.ofBytes cable code bytes] := by
  have own := EventPacket.code_ofBytes cable code bytes
  have divided : (EventPacket.ofBytes cable code bytes).bytes.take code.sysExLength = bytes ∧
      ∀ byte ∈ (EventPacket.ofBytes cable code bytes).bytes.drop code.sysExLength, byte = 0 := by
    simp only [List.mem_cons, List.not_mem_nil, or_false] at ends
    rcases ends with rfl | rfl | rfl
    · obtain ⟨byte1, rfl⟩ := List.length_eq_one_iff.mp length
      simp [EventPacket.bytes, CodeIndex.sysExLength]
    · obtain ⟨byte1, byte2, rfl⟩ := List.length_eq_two.mp length
      simp [EventPacket.bytes, CodeIndex.sysExLength]
    · obtain ⟨byte1, byte2, byte3, rfl⟩ := List.length_eq_three.mp length
      simp [EventPacket.bytes, CodeIndex.sysExLength]
  refine ⟨?_, ?_, by simp, ⟨[], _, rfl, by simp, by rwa [own]⟩⟩
  · rw [List.flatMap_singleton, EventPacket.payload, own, divided.1]
  · rw [List.forall_mem_singleton, EventPacket.padding, own]
    exact divided.2

/-- A full group comes in front of the packets of the other bytes. -/
theorem Grouped.cons {packets : List EventPacket} (grouped : Grouped cable bytes packets)
    (byte1 byte2 byte3 : UInt8) :
    Grouped cable (byte1 :: byte2 :: byte3 :: bytes)
      (.ofBytes cable .sysExContinues [byte1, byte2, byte3] :: packets) := by
  obtain ⟨payload, padding, own, full, last, rfl, open_, ends⟩ := grouped
  refine ⟨?_, ?_, ?_, ⟨_ :: full, last, rfl, ?_, ends⟩⟩
  · rw [List.flatMap_cons, payload]
    simp [EventPacket.payload, EventPacket.bytes, CodeIndex.sysExLength]
  · refine List.forall_mem_cons.mpr ⟨?_, padding⟩
    simp [EventPacket.padding, EventPacket.bytes, CodeIndex.sysExLength]
  · exact List.forall_mem_cons.mpr ⟨EventPacket.cable_ofBytes .., own⟩
  · exact List.forall_mem_cons.mpr ⟨EventPacket.code_ofBytes .., open_⟩

/-- All packets of a message carry some of its bytes. -/
theorem Grouped.isSysExOn {packets : List EventPacket} {packet : EventPacket}
    (grouped : Grouped cable bytes packets) (member : packet ∈ packets) :
    packet.isSysExOn cable = true := by
  obtain ⟨full, last, rfl, open_, ends⟩ := grouped.codes
  have carries : packet.code.sysExLength ≠ 0 := by
    rcases List.mem_append.mp member with earlier | final
    · rw [open_ packet earlier]
      decide
    · rw [List.mem_singleton.mp final]
      simp only [List.mem_cons, List.not_mem_nil, or_false] at ends
      rcases ends with code | code | code <;> rw [code] <;> decide
  simp [EventPacket.isSysExOn, grouped.cable packet member, carries]

namespace Encoder

/-- The packets of the bytes hold them in order, and the last one ends the message. -/
theorem grouped_lastGroups (cable : Cable) (nonempty : bytes ≠ []) :
    Grouped cable bytes (lastGroups cable bytes) := by
  fun_induction lastGroups cable bytes with
  | case1 => exact absurd rfl nonempty
  | case2 byte1 => exact grouped_last cable (by simp) rfl
  | case3 byte1 byte2 => exact grouped_last cable (by simp) rfl
  | case4 byte1 byte2 byte3 => exact grouped_last cable (by simp) rfl
  | case5 byte1 byte2 byte3 rest more ih => exact (ih more).cons byte1 byte2 byte3

/-- The groups that are sent of an unfinished message are some of its cable's packets. -/
theorem isSysExOn_of_mem_groups {packet : EventPacket}
    (member : packet ∈ (groups cable bytes).1) : packet.isSysExOn cable = true := by
  fun_induction groups cable bytes with
  | case1 byte1 byte2 byte3 rest packets left equation ih =>
    rw [equation] at ih
    rcases List.mem_cons.mp member with rfl | later
    · simp [EventPacket.isSysExOn, CodeIndex.sysExLength]
    · exact ih later
  | case2 left short => cases member

end Encoder

end Groups

namespace Encoder

variable {encoder other : Encoder} {cable : Cable} {piece : SysExPiece} {message : Message}

/-! ## The packets of a cable's pieces -/

/-- Every message with its packets. -/
def outputs (encoder : Encoder) : List Message → List (Message × List EventPacket)
  | [] => []
  | message :: later =>
    (message, (encoder.encode message).1) :: (encoder.encode message).2.outputs later

/-- The packets that the pieces of a cable bring about. -/
def sysExOutput (encoder : Encoder) (cable : Cable) (messages : List Message) : List EventPacket :=
  (encoder.outputs messages).flatMap fun output =>
    if (output.1.pieceOn? cable).isSome then output.2 else []

theorem encodeAll_cons (encoder : Encoder) (message : Message) (later : List Message) :
    encoder.encodeAll (message :: later) =
      ((encoder.encode message).1 ++ ((encoder.encode message).2.encodeAll later).1,
        ((encoder.encode message).2.encodeAll later).2) :=
  rfl

/-- No bytes wait behind a last piece. -/
theorem waiting_encode_of_last (encoder : Encoder) (last : piece.last = true) :
    (encoder.encode (.sysEx piece)).2.waiting piece.cable = [] := by
  rw [encode, encodeSysEx, if_pos last]
  exact Vector.getElem_set_self piece.cable.index.isLt

/-- Only what waits on its own cable matters to a piece. -/
theorem encode_congr (same : encoder.waiting piece.cable = other.waiting piece.cable) :
    (encoder.encode (.sysEx piece)).1 = (other.encode (.sysEx piece)).1 ∧
      (encoder.encode (.sysEx piece)).2.waiting piece.cable =
        (other.encode (.sysEx piece)).2.waiting piece.cable := by
  have due : encoder.due piece = other.due piece := by rw [Encoder.due, Encoder.due, same]
  cases last : piece.last with
  | true =>
    rw [encode_of_last _ last, encode_of_last _ last, waiting_encode_of_last _ last,
      waiting_encode_of_last _ last, due]
    exact ⟨rfl, rfl⟩
  | false =>
    obtain ⟨packets, left⟩ := encoder.encode_of_open last
    obtain ⟨packets', left'⟩ := other.encode_of_open last
    rw [packets, left, packets', left', due]
    exact ⟨rfl, rfl⟩

/-- A message that is not a piece of this cable leaves what waits there alone. -/
theorem waiting_encode_of_none (encoder : Encoder) (elsewhere : message.pieceOn? cable = none) :
    (encoder.encode message).2.waiting cable = encoder.waiting cable := by
  cases message with
  | sysEx piece =>
    refine encoder.waiting_encode_of_ne fun own => ?_
    simp [Message.pieceOn?, own] at elsewhere
  | _ => rfl

/-- The packets of a cable's pieces are those of the pieces alone. -/
theorem sysExOutput_eq (same : encoder.waiting cable = other.waiting cable)
    (messages : List Message) :
    encoder.sysExOutput cable messages =
        (other.encodeAll ((piecesOn cable messages).map .sysEx)).1 ∧
      (encoder.encodeAll messages).2.waiting cable =
        (other.encodeAll ((piecesOn cable messages).map .sysEx)).2.waiting cable := by
  induction messages generalizing encoder other with
  | nil => exact ⟨rfl, same⟩
  | cons message later ih =>
    cases found : message.pieceOn? cable with
    | none =>
      have kept := (encoder.waiting_encode_of_none found).trans same
      have skipped : piecesOn cable (message :: later) = piecesOn cable later :=
        List.filterMap_cons_none found
      have output : encoder.sysExOutput cable (message :: later) =
          (encoder.encode message).2.sysExOutput cable later := by
        simp [sysExOutput, outputs, found]
      rw [skipped, output, encodeAll_cons]
      exact ih kept
    | some piece =>
      obtain ⟨rfl, rfl⟩ := Message.pieceOn?_eq_some_iff.mp found
      obtain ⟨packets, left⟩ := encode_congr same
      obtain ⟨rest, final⟩ := ih left
      have output : encoder.sysExOutput piece.cable (.sysEx piece :: later) =
          (encoder.encode (.sysEx piece)).1 ++
            (encoder.encode (.sysEx piece)).2.sysExOutput piece.cable later := by
        simp [sysExOutput, outputs, found]
      rw [piecesOn_cons rfl, output, List.map_cons, encodeAll_cons, encodeAll_cons, packets, rest]
      exact ⟨rfl, final⟩

/-! ## Codes -/

/-- All packets of a piece carry bytes of system exclusive messages on its cable. -/
theorem isSysExOn_of_mem_encode {packet : EventPacket}
    (member : packet ∈ (encoder.encode (.sysEx piece)).1) :
    packet.isSysExOn piece.cable = true := by
  cases last : piece.last with
  | false =>
    rw [(encoder.encode_of_open last).1] at member
    exact isSysExOn_of_mem_groups member
  | true =>
    rw [encoder.encode_of_last last] at member
    have nonempty : encoder.due piece ≠ [] := by
      intro empty
      rw [empty] at member
      cases member
    exact (grouped_lastGroups piece.cable nonempty).isSysExOn member

/-- Packets of channel messages hold no bytes of a system exclusive message. -/
theorem sysExLength_of_channelStatus {status : UInt8} {code : CodeIndex}
    (found : CodeIndex.ofChannelStatus? status = some code) : code.sysExLength = 0 := by
  have channel : ByteClass.of status = .channelStatus := by
    rw [CodeIndex.ofChannelStatus?, Option.ite_none_right_eq_some, isChannelStatus,
      beq_iff_eq] at found
    exact found.1
  obtain ⟨_, member, same⟩ := CodeIndex.exists_of_channelStatus channel
  obtain rfl := Option.some.inj (found.symm.trans same)
  revert member
  cases code <;> simp [CodeIndex.ofChannelMessages, CodeIndex.sysExLength]

/-- The packets of other messages have codes of their own, if these are not shared. -/
theorem sysExLength_of_mem_encode {packet : EventPacket} (own : message.sharesCode = false)
    (other : ∀ piece, message ≠ .sysEx piece) (member : packet ∈ (encoder.encode message).1) :
    packet.code.sysExLength = 0 := by
  cases message with
  | channel message =>
    rw [encode, encodeChannel] at member
    split at member
    · cases member
    · rename_i code found
      rw [List.mem_singleton.mp member, EventPacket.code_ofBytes]
      exact sysExLength_of_channelStatus found
  | common message =>
    rw [List.mem_singleton.mp member, encodeCommon, EventPacket.code_ofBytes]
    split
    · rename_i bare
      simp [Message.sharesCode, bare] at own
    · rfl
    · rfl
  | realTime message =>
    rw [List.mem_singleton.mp member, EventPacket.code_ofBytes]
    rfl
  | sysEx piece => exact absurd rfl (other piece)

/-- The codes and cables of packets tell which of them belong to the pieces of a cable. -/
theorem filter_encode (cable : Cable) (own : message.sharesCode = false) :
    (encoder.encode message).1.filter (·.isSysExOn cable) =
      if (message.pieceOn? cable).isSome then (encoder.encode message).1 else [] := by
  cases found : message.pieceOn? cable with
  | some piece =>
    obtain ⟨rfl, rfl⟩ := Message.pieceOn?_eq_some_iff.mp found
    exact List.filter_eq_self.mpr fun packet member => isSysExOn_of_mem_encode member
  | none =>
    refine List.filter_eq_nil_iff.mpr fun packet member => ?_
    cases message with
    | sysEx piece =>
      have carries := isSysExOn_of_mem_encode member
      simp only [EventPacket.isSysExOn, Bool.and_eq_true, beq_iff_eq] at carries ⊢
      rw [carries.1]
      simp [Message.pieceOn?] at found
      simp [found]
    | _ =>
      have silent := sysExLength_of_mem_encode own (by simp) member
      simp [EventPacket.isSysExOn, silent]

/-- Apart from system common messages of a single byte, the packets of a cable's pieces are those
with their codes. -/
theorem sysExOutput_eq_filter (encoder : Encoder) (cable : Cable) (messages : List Message) :
    encoder.sysExOutput cable messages =
      (((encoder.outputs messages).filter (!·.1.sharesCode)).flatMap (·.2)).filter
        (·.isSysExOn cable) := by
  induction messages generalizing encoder with
  | nil => rfl
  | cons message later ih =>
    have rest := ih (encoder.encode message).2
    cases shared : message.sharesCode with
    | true =>
      have single : message.pieceOn? cable = none := by
        cases message with
        | sysEx piece => cases shared
        | _ => rfl
      simpa [sysExOutput, outputs, shared, single] using rest
    | false =>
      rw [sysExOutput] at rest ⊢
      rw [outputs, List.flatMap_cons, List.filter_cons_of_pos (by simp [shared]), List.flatMap_cons,
        List.filter_append, filter_encode cable shared, rest]

/-! ## Cuts -/

/-- These pieces end a message that goes on with these bytes, and leave nothing behind. -/
structure Finishes (encoder : Encoder) (cable : Cable) (pieces : List SysExPiece)
    (bytes : List UInt8) : Prop where
  packets : (encoder.encodeAll (pieces.map .sysEx)).1 = lastGroups cable bytes
  nothing : (encoder.encodeAll (pieces.map .sysEx)).2.waiting cable = []

/-- A last piece finishes its message with the bytes that are due. -/
theorem finishes_last (encoder : Encoder) (last : piece.last = true) :
    encoder.Finishes piece.cable [piece] (encoder.due piece) where
  packets := (List.append_nil _).trans (encoder.encode_of_last last)
  nothing := encoder.waiting_encode_of_last last

/-- What an open piece leaves over is sent in front of the bytes that follow. -/
theorem Finishes.cons {pieces : List SysExPiece} {bytes : List UInt8}
    (finishes : (encoder.encode (.sysEx piece)).2.Finishes piece.cable pieces
      ((encoder.encode (.sysEx piece)).2.waiting piece.cable ++ bytes))
    (goesOn : piece.last = false) (more : bytes ≠ []) :
    encoder.Finishes piece.cable (piece :: pieces) (encoder.due piece ++ bytes) := by
  obtain ⟨packets, left⟩ := encoder.encode_of_open goesOn
  refine ⟨?_, finishes.nothing⟩
  rw [List.map_cons, encodeAll_cons, finishes.packets, packets, left]
  exact (lastGroups_append piece.cable (encoder.due piece) more).symm

/-- Middle pieces and a last one end a message as one piece would. -/
theorem finishes_laterPieces {back : List UInt8} (encoder : Encoder) (cable : Cable)
    (middle : List (List UInt8)) (more : back ≠ []) :
    encoder.Finishes cable (laterPieces cable middle back)
      (encoder.waiting cable ++ (middle.flatten ++ back)) := by
  induction middle generalizing encoder with
  | nil =>
    have last : (⟨back, cable, false, true⟩ : SysExPiece).last = true := rfl
    exact encoder.finishes_last last
  | cons part later ih =>
    have goesOn : (⟨part, cable, false, false⟩ : SysExPiece).last = false := rfl
    have further : later.flatten ++ back ≠ [] := List.append_ne_nil_of_right_ne_nil _ more
    rw [List.flatten_cons, List.append_assoc, ← List.append_assoc]
    exact (ih (encoder.encode (.sysEx ⟨part, cable, false, false⟩)).2).cons goesOn further

/-- A message in pieces is ended as one in a single piece, whatever is waiting. -/
theorem finishes_cutPieces {back : List UInt8} (encoder : Encoder) (cable : Cable)
    (front : List UInt8) (middle : List (List UInt8)) (more : back ≠ []) :
    encoder.Finishes cable (cutPieces cable front middle back)
      (front ++ middle.flatten ++ back) := by
  have goesOn : (⟨front, cable, true, false⟩ : SysExPiece).last = false := rfl
  have further : middle.flatten ++ back ≠ [] := List.append_ne_nil_of_right_ne_nil _ more
  have later := finishes_laterPieces (encoder.encode (.sysEx ⟨front, cable, true, false⟩)).2
    cable middle more
  rw [List.append_assoc]
  exact later.cons goesOn further

/-- The packets of a system exclusive message do not depend on where it is cut, on what the encoder
had left over, and on what is sent between its pieces: they are those of the whole message, sent in
one piece by any encoder. -/
theorem sysExOutput_cutPieces {cable : Cable} {front back : List UInt8}
    {middle : List (List UInt8)} {messages : List Message} (encoder other : Encoder)
    (more : back ≠ []) (pieces : piecesOn cable messages = cutPieces cable front middle back) :
    encoder.sysExOutput cable messages =
        (other.encode (.sysEx ⟨front ++ middle.flatten ++ back, cable, true, true⟩)).1 ∧
      encoder.sysExOutput cable messages =
        (((encoder.outputs messages).filter (!·.1.sharesCode)).flatMap (·.2)).filter
          (·.isSysExOn cable) ∧
      Grouped cable (front ++ middle.flatten ++ back) (encoder.sysExOutput cable messages) ∧
      (encoder.encodeAll messages).2.waiting cable = [] := by
  obtain ⟨packets, left⟩ := encoder.sysExOutput_eq rfl messages
  obtain ⟨cut, nothing⟩ := encoder.finishes_cutPieces cable front middle more
  rw [pieces] at packets left
  have output := packets.trans cut
  have nonempty : front ++ middle.flatten ++ back ≠ [] :=
    List.append_ne_nil_of_right_ne_nil _ more
  have whole :
      (other.encode (.sysEx ⟨front ++ middle.flatten ++ back, cable, true, true⟩)).1 =
        lastGroups cable (front ++ middle.flatten ++ back) := other.encode_of_last rfl
  refine ⟨output.trans whole.symm, encoder.sysExOutput_eq_filter cable messages, ?_,
    left.trans nothing⟩
  rw [output]
  exact grouped_lastGroups cable nonempty

/-- An encoder with the rest of an unfinished message on every cable. -/
def unfinished : Encoder := ⟨Vector.replicate _ [0x0A, 0x0B]⟩

/-- A system exclusive message in pieces, one of which is empty, with other messages of its cable
and a system exclusive message of another cable between them. -/
def splitMessages : List Message :=
  [.sysEx ⟨[0x0C], .ofNibble 5, false, true⟩,
    .sysEx ⟨[0xF0, 0x01, 0x02, 0x80], .first, true, false⟩,
    .common ⟨0xF6, 0, 0, .first⟩,
    .sysEx ⟨[0xF0, 0x03], .ofNibble 5, true, false⟩,
    .sysEx ⟨[], .first, false, false⟩,
    .channel ⟨0x95, 0x11, 0x12, .first⟩,
    .sysEx ⟨[0x04, 0xF7], .ofNibble 5, false, true⟩,
    .sysEx ⟨[0x05], .first, false, false⟩,
    .sysEx ⟨[0x06, 0xF7], .first, false, true⟩]

/-- The bytes fill whole packets across the cuts, and the last piece leaves nothing to wait. -/
theorem sysExOutput_splitMessages :
    piecesOn .first splitMessages =
        cutPieces .first [0xF0, 0x01, 0x02, 0x80] [[], [0x05]] [0x06, 0xF7] ∧
      unfinished.sysExOutput .first splitMessages =
        [⟨0x04, 0xF0, 0x01, 0x02⟩, ⟨0x04, 0x80, 0x05, 0x06⟩, ⟨0x05, 0xF7, 0x00, 0x00⟩] ∧
      (unfinished.encodeAll splitMessages).2.waiting .first = [] := by
  have pieces : piecesOn .first splitMessages =
      cutPieces .first [0xF0, 0x01, 0x02, 0x80] [[], [0x05]] [0x06, 0xF7] := by decide +kernel
  obtain ⟨whole, -, -, nothing⟩ := sysExOutput_cutPieces unfinished initial (by simp) pieces
  refine ⟨pieces, ?_, nothing⟩
  rw [whole]
  decide +kernel

end Encoder

end Usb

end MidiTransport
