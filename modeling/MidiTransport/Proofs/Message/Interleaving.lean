import Mathlib.Logic.Function.Basic
import MidiTransport.Message.Basic

/-!
# Messages on several cables

On each cable a system exclusive message travels in pieces of its own, and messages of any
kind and of other cables may come between the pieces. `gathered` has every such message in
one piece, at the place of its last piece. A first piece begins a new message and drops what
its cable holds of the one before, so a message that is never finished leaves no trace.
`Interleaved` says which messages a sender may send in which order. `piecesOn` picks the pieces of
one cable.
-/

namespace MidiTransport

/-! ## Gathering pieces -/

/-- All bytes of a message up to this piece, behind the bytes that are held on its cable. -/
def SysExPiece.behind (held : Cable → List UInt8) (piece : SysExPiece) : List UInt8 :=
  (if piece.first then [] else held piece.cable) ++ piece.data

/-- Take up one more message. The bytes of a piece are held on its cable until the last piece
of its message arrives. -/
def gather (held : Cable → List UInt8) : Message → List Message × (Cable → List UInt8)
  | .sysEx piece =>
    if piece.last then
      ([.sysEx ⟨piece.behind held, piece.cable, true, true⟩], Function.update held piece.cable [])
    else ([], Function.update held piece.cable (piece.behind held))
  | message => ([message], held)

/-- A last piece completes the message of its cable. -/
theorem gather_of_last {held : Cable → List UInt8} {piece : SysExPiece} (last : piece.last = true) :
    gather held (.sysEx piece) =
      ([.sysEx ⟨piece.behind held, piece.cable, true, true⟩],
        Function.update held piece.cable []) := by
  rw [gather, if_pos last]

/-- Any other piece goes on with the message of its cable. -/
theorem gather_of_open {held : Cable → List UInt8} {piece : SysExPiece} (goesOn : piece.last = false) :
    gather held (.sysEx piece) =
      ([], Function.update held piece.cable (piece.behind held)) := by
  rw [gather, if_neg (by simp [goesOn])]

/-- A piece leaves all other cables alone. -/
theorem gather_elsewhere {held : Cable → List UInt8} {piece : SysExPiece} {other : Cable}
    (elsewhere : other ≠ piece.cable) : (gather held (.sysEx piece)).2 other = held other := by
  cases last : piece.last with
  | true =>
    rw [gather_of_last last]
    exact Function.update_of_ne elsewhere _ _
  | false =>
    rw [gather_of_open last]
    exact Function.update_of_ne elsewhere _ _

/-- The messages with every finished system exclusive message in one piece, and the bytes that
are then held. -/
def gathered (held : Cable → List UInt8) : List Message → List Message × (Cable → List UInt8)
  | [] => ([], held)
  | message :: later =>
    ((gather held message).1 ++ (gathered (gather held message).2 later).1,
      (gathered (gather held message).2 later).2)

theorem gathered_append (held : Cable → List UInt8) (front back : List Message) :
    gathered held (front ++ back) =
      ((gathered held front).1 ++ (gathered (gathered held front).2 back).1,
        (gathered (gathered held front).2 back).2) := by
  induction front generalizing held with
  | nil => rfl
  | cons message later ih => simp only [List.cons_append, gathered, ih, List.append_assoc]

@[simp] theorem gathered_singleton (held : Cable → List UInt8) (message : Message) :
    gathered held [message] = gather held message := by
  simp [gathered]

/-! ## Interleaved messages -/

/-- The bytes of a whole system exclusive message. -/
def IsWhole (bytes : List UInt8) : Prop :=
  ∃ body : List UInt8, (∀ byte ∈ body, byte < 0xF0) ∧ bytes = sysExStart :: body ++ [sysExEnd]

/-- The bytes of a system exclusive message in front of its end. -/
def IsBegun (bytes : List UInt8) : Prop :=
  bytes = [] ∨ ∃ body : List UInt8, (∀ byte ∈ body, byte < 0xF0) ∧ bytes = sysExStart :: body

/-- The message may come next, when these cables have an unfinished system exclusive message
of which they hold these bytes. A piece that is not a first one goes on with such a message,
and only a last piece finishes it. -/
def Message.ContinuesIn (unfinished : Cable → Bool) (held : Cable → List UInt8) : Message → Prop
  | channel message =>
    ByteClass.of message.header = .channelStatus ∧
      (message.hasTwoDataBytes = false → message.data2 = 0)
  | common message =>
    ByteClass.of message.header = .systemCommon ∧
      (message.dataCount < 1 → message.data1 = 0) ∧ (message.dataCount < 2 → message.data2 = 0)
  | realTime message => message.isValid = true
  | sysEx piece =>
    (piece.first = true ∨ unfinished piece.cable = true) ∧
      if piece.last then piece.data ≠ [] ∧ IsWhole (piece.behind held)
      else IsBegun (piece.behind held)

/-- The cables with an unfinished system exclusive message behind this message. -/
def Message.unfinishedAfter (unfinished : Cable → Bool) : Message → Cable → Bool
  | sysEx piece => Function.update unfinished piece.cable !piece.last
  | _ => unfinished

/-- The messages may come one after the other. On each cable the pieces make up whole system
exclusive messages, some of which may be left unfinished when the next one begins. -/
def Interleaved (unfinished : Cable → Bool) (held : Cable → List UInt8) : List Message → Prop
  | [] => True
  | message :: later =>
    message.ContinuesIn unfinished held ∧
      Interleaved (message.unfinishedAfter unfinished) (gather held message).2 later

/-! ## Pieces of a cable -/

/-- The piece of a system exclusive message on a cable. -/
def Message.pieceOn? (cable : Cable) : Message → Option SysExPiece
  | sysEx piece => if piece.cable = cable then some piece else none
  | _ => none

/-- The pieces of system exclusive messages among the messages of a cable. -/
def piecesOn (cable : Cable) (messages : List Message) : List SysExPiece :=
  messages.filterMap (·.pieceOn? cable)

/-- Only a piece of a system exclusive message is one on its cable. -/
theorem Message.pieceOn?_eq_some_iff {cable : Cable} {message : Message} {piece : SysExPiece} :
    message.pieceOn? cable = some piece ↔ message = .sysEx piece ∧ piece.cable = cable := by
  cases message with
  | sysEx other =>
    simp only [pieceOn?, Option.ite_none_right_eq_some, Option.some.injEq, sysEx.injEq]
    constructor
    · rintro ⟨own, rfl⟩
      exact ⟨rfl, own⟩
    · rintro ⟨rfl, own⟩
      exact ⟨own, rfl⟩
  | _ => simp [pieceOn?]

theorem piecesOn_cons {cable : Cable} {piece : SysExPiece} (own : piece.cable = cable)
    (later : List Message) :
    piecesOn cable (.sysEx piece :: later) = piece :: piecesOn cable later :=
  List.filterMap_cons_some (if_pos own)

end MidiTransport
