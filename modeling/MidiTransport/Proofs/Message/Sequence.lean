import MidiTransport.Message.Basic

/-!
# Sequences of messages

A sender may send a system exclusive message in pieces, and a receiver may announce it
in other pieces. `joined` is what both have in common: every message in one piece, at
the place of its last piece. `Orderly` is what a receiver needs to be able to tell the
messages of a sender apart.
-/

namespace MidiTransport

/-! ## Well-formed messages -/

/-- A channel message with a status byte, data bytes, and nothing in a place that is
not sent. -/
structure ChannelMessage.WellFormed (message : ChannelMessage) : Prop where
  header : ByteClass.of message.header = .channelStatus
  data1 : ByteClass.of message.data1 = .data
  data2 : ByteClass.of message.data2 = .data
  unused : message.hasTwoDataBytes = false → message.data2 = 0

instance (message : ChannelMessage) : Decidable message.WellFormed :=
  decidable_of_iff
    (ByteClass.of message.header = .channelStatus ∧ ByteClass.of message.data1 = .data ∧
      ByteClass.of message.data2 = .data ∧
      (message.hasTwoDataBytes = false → message.data2 = 0))
    ⟨fun parts => ⟨parts.1, parts.2.1, parts.2.2.1, parts.2.2.2⟩,
      fun formed => ⟨formed.header, formed.data1, formed.data2, formed.unused⟩⟩

theorem ne_zero_of_channelStatus {header : UInt8}
    (kind : ByteClass.of header = .channelStatus) : header ≠ 0 := by
  rintro rfl
  exact absurd kind (by decide)

theorem ne_sysExEnd_of_data {byte : UInt8} (low : ByteClass.of byte = .data) :
    byte ≠ sysExEnd := by
  rintro rfl
  exact absurd low (by decide)

/-- A system common message with a status byte, data bytes, and nothing in a place that is
not sent. -/
structure CommonMessage.WellFormed (message : CommonMessage) : Prop where
  header : ByteClass.of message.header = .systemCommon
  data1 : ByteClass.of message.data1 = .data
  data2 : ByteClass.of message.data2 = .data
  unused1 : message.dataCount < 1 → message.data1 = 0
  unused2 : message.dataCount < 2 → message.data2 = 0

instance (message : CommonMessage) : Decidable message.WellFormed :=
  decidable_of_iff
    (ByteClass.of message.header = .systemCommon ∧ ByteClass.of message.data1 = .data ∧
      ByteClass.of message.data2 = .data ∧ (message.dataCount < 1 → message.data1 = 0) ∧
      (message.dataCount < 2 → message.data2 = 0))
    ⟨fun parts => ⟨parts.1, parts.2.1, parts.2.2.1, parts.2.2.2.1, parts.2.2.2.2⟩,
      fun formed =>
        ⟨formed.header, formed.data1, formed.data2, formed.unused1, formed.unused2⟩⟩

/-- A piece of a system exclusive message: a start byte in the first piece, an end byte
in the last one, and any number of data bytes in between. -/
def SysExPiece.WellFormed (piece : SysExPiece) : Prop :=
  ∃ body : List UInt8, (∀ byte ∈ body, ByteClass.of byte = .data) ∧
    piece.data =
      (if piece.first then [sysExStart] else []) ++ body ++ if piece.last then [sysExEnd] else []

/-- The message may stand where a system exclusive message has been begun and not been
finished, or where none has been begun. -/
def Message.Fits (inside : Bool) : Message → Prop
  | channel message => inside = false ∧ message.WellFormed
  | common message => inside = false ∧ message.WellFormed
  | realTime message => message.isValid = true
  | sysEx piece => piece.first = !inside ∧ piece.WellFormed

/-- Is a system exclusive message under way behind this message? -/
def Message.leavesInside (inside : Bool) : Message → Bool
  | sysEx piece => !piece.last
  | _ => inside

/-- The messages are well-formed, and between the pieces of a system exclusive message,
which is finished in the end, there are only real-time messages. -/
def Orderly (inside : Bool) : List Message → Prop
  | [] => inside = false
  | message :: later => message.Fits inside ∧ Orderly (message.leavesInside inside) later

/-! ## Messages in one piece -/

/-- Take up one more message. The bytes of a piece are held until the last piece of its
message arrives. -/
def absorb (held : List UInt8) : Message → List Message × List UInt8
  | .sysEx piece =>
    if piece.last then ([.sysEx ⟨held ++ piece.data, piece.cable, true, true⟩], [])
    else ([], held ++ piece.data)
  | message => ([message], held)

/-- The messages with every system exclusive message in one piece, and the bytes of one
that has not been finished, behind the bytes that were held before. -/
def joined (held : List UInt8) : List Message → List Message × List UInt8
  | [] => ([], held)
  | message :: later =>
    ((absorb held message).1 ++ (joined (absorb held message).2 later).1,
      (joined (absorb held message).2 later).2)

theorem joined_append (held : List UInt8) (front back : List Message) :
    joined held (front ++ back) =
      ((joined held front).1 ++ (joined (joined held front).2 back).1,
        (joined (joined held front).2 back).2) := by
  induction front generalizing held with
  | nil => rfl
  | cons message later ih => simp only [List.cons_append, joined, ih, List.append_assoc]

@[simp] theorem joined_singleton (held : List UInt8) (message : Message) :
    joined held [message] = absorb held message := by
  simp [joined]

/-- Pieces that do not finish a message only add to it. -/
theorem joined_pieces (held : List UInt8) (pieces : List SysExPiece)
    (unfinished : ∀ piece ∈ pieces, piece.last = false) :
    joined held (pieces.map .sysEx) = ([], held ++ pieces.flatMap (·.data)) := by
  induction pieces generalizing held with
  | nil => simp [joined]
  | cons piece later ih =>
    have goesOn : piece.last = false := unfinished piece (by simp)
    have others : ∀ other ∈ later, other.last = false :=
      fun other member => unfinished other (by simp [member])
    simp [joined, absorb, goesOn, ih (held ++ piece.data) others]

/-- The message with the first cable in place of its own. -/
def Message.onFirstCable : Message → Message
  | channel message => channel { message with cable := .first }
  | common message => common { message with cable := .first }
  | realTime message => realTime { message with cable := .first }
  | sysEx piece => sysEx { piece with cable := .first }

end MidiTransport
