import MidiTransport.SysEx.Assembly

/-!
# Assembling in a buffer of fixed size

A receiver has `Assembly.capacity` cells for the bytes of a system exclusive message and counts the
cells in use. The operations of a buffer are guarded: they have no result if bytes are added without
room for them, if a cell beyond the last one would be written or read, or if a piece is handed out
while no message is open. Wherever an assembly has room, or is open, the guards are met, and the
buffer then holds what the operation makes of the assembly (`Buffer.Holds.exists_append?`,
`Buffer.Holds.exists_handOut?`).

Handed-out bytes still fill the cells, though the next byte has all the room of a new piece. An
assembly is `Orderly` if that only happens while its message is open.
-/

namespace MidiTransport.SysEx

/-! ## Orderly assemblies -/

namespace Assembly

/-- What a receiver keeps up between two bytes: the bytes fit into a piece, an open message has some,
and only bytes of an open message are handed out. -/
structure Orderly (assembly : Assembly) : Prop where
  bounded : assembly.data.length ≤ capacity
  begun : assembly.receiving = true → assembly.data ≠ []
  receiving_of_handedOut : assembly.handedOut = true → assembly.receiving = true

variable {assembly : Assembly} {bytes : List UInt8}

theorem orderly_idle : idle.Orderly where
  bounded := Nat.zero_le _
  begun receiving := by cases receiving
  receiving_of_handedOut handed := by cases handed

/-- Bytes that have been handed out leave all the room of a piece. -/
theorem hasRoom_of_handedOut {amount : Nat} (handed : assembly.handedOut = true)
    (small : amount ≤ capacity) : assembly.hasRoom amount = true := by
  simpa [hasRoom, used, handed] using small

/-- Behind a piece that has been handed out, the next bytes start another one. -/
theorem data_append_of_handedOut (handed : assembly.handedOut = true) (bytes : List UInt8) :
    (assembly.append bytes).data = bytes := by
  simp [append, nextPiece, handed]

/-- Without a piece that has been handed out, the bytes at the end of a message are the last piece. -/
theorem data_finish (fresh : assembly.handedOut = false) : assembly.finish.data = assembly.data := by
  simp [finish, nextPiece, fresh]

/-- The bytes that have just been appended are in the last piece. -/
theorem data_finish_append (assembly : Assembly) (bytes : List UInt8) :
    (assembly.append bytes).finish.data = (assembly.append bytes).data :=
  data_finish (handedOut_append assembly bytes)

/-- A piece that bytes are appended to is not empty. -/
theorem data_append_ne_nil (assembly : Assembly) (nonempty : bytes ≠ []) :
    (assembly.append bytes).data ≠ [] :=
  List.append_ne_nil_of_right_ne_nil _ nonempty

/-- Whatever has been assembled, bytes that fit leave it orderly. -/
theorem orderly_append (nonempty : bytes ≠ []) (room : assembly.hasRoom bytes.length = true) :
    (assembly.append bytes).Orderly where
  bounded := length_append_le room
  begun _ := assembly.data_append_ne_nil nonempty
  receiving_of_handedOut handed := by simp at handed

namespace Orderly

/-- A piece may be handed out while its message is open. -/
theorem handOut (orderly : assembly.Orderly) (receiving : assembly.receiving = true) :
    assembly.handOut.Orderly where
  bounded := orderly.bounded
  begun := orderly.begun
  receiving_of_handedOut _ := receiving

/-- A message may end at any time. -/
theorem finish (orderly : assembly.Orderly) : assembly.finish.Orderly where
  bounded := by
    show assembly.nextPiece.data.length ≤ capacity
    rw [length_nextPiece, used]
    split
    · exact Nat.zero_le _
    · exact orderly.bounded
  begun receiving := by cases receiving
  receiving_of_handedOut handed := by simp at handed

end Orderly

end Assembly

/-! ## Buffers -/

/-- A fixed number of cells for the bytes of a system exclusive message. -/
structure Buffer where
  cells : Vector UInt8 Assembly.capacity
  /-- The number of cells in use, which are the first ones. -/
  length : Nat
  /-- A message is open. -/
  receiving : Bool
  /-- The bytes belong to the first piece of their message. -/
  first : Bool
  /-- The bytes have been handed out and make room for the next byte. -/
  handedOut : Bool

namespace Buffer

/-- A buffer that has not been used. -/
def blank : Buffer := ⟨Vector.replicate _ 0, 0, false, false, false⟩

/-- Drop an unfinished message and open a new one. The cells are left as they are. -/
def start (buffer : Buffer) : Buffer :=
  { buffer with length := 0, receiving := true, first := true, handedOut := false }

/-- Bytes that have been handed out give way to the next piece. -/
def nextPiece (buffer : Buffer) : Buffer :=
  if buffer.handedOut then { buffer with length := 0, first := false, handedOut := false }
  else buffer

/-- Close the message. -/
def finish (buffer : Buffer) : Buffer := { buffer.nextPiece with receiving := false }

/-- Do this many more bytes fit into the piece? -/
def hasRoom (buffer : Buffer) (amount : Nat) : Bool :=
  (if buffer.handedOut then 0 else buffer.length) + amount ≤ Assembly.capacity

/-- Mark the bytes as handed out, if a message is open. -/
def handOut? (buffer : Buffer) : Option Buffer :=
  if buffer.receiving then some { buffer with handedOut := true } else none

/-- Put bytes into the cells from a position on, if they end at the last cell or before it. -/
def store? (cells : Vector UInt8 Assembly.capacity) (position : Nat) (bytes : List UInt8) :
    Option (Vector UInt8 Assembly.capacity) :=
  if within : position + bytes.length ≤ Assembly.capacity then
    some ⟨(cells.toList.take position ++ bytes ++
        cells.toList.drop (position + bytes.length)).toArray, by
      simp only [List.size_toArray, List.length_append, List.length_take, List.length_drop,
        Vector.length_toList]
      omega⟩
  else none

/-- Add bytes to the piece, or to the next one if this one has been handed out. -/
def append? (buffer : Buffer) (bytes : List UInt8) : Option Buffer :=
  let next := buffer.nextPiece
  if next.hasRoom bytes.length then do
    let cells ← store? next.cells next.length bytes
    some { next with cells, length := next.length + bytes.length }
  else none

/-- The assembly in the cells in use, if there are so many cells. -/
def assembly? (buffer : Buffer) : Option Assembly :=
  if buffer.length ≤ Assembly.capacity then
    some ⟨buffer.cells.toList.take buffer.length, buffer.receiving, buffer.first,
      buffer.handedOut⟩
  else none

/-- The buffer holds what has been assembled. -/
structure Holds (buffer : Buffer) (assembly : Assembly) : Prop where
  within : buffer.length ≤ Assembly.capacity
  content : buffer.cells.toList.take buffer.length = assembly.data
  receiving : buffer.receiving = assembly.receiving
  first : buffer.first = assembly.first
  handedOut : buffer.handedOut = assembly.handedOut

variable {buffer : Buffer} {assembly : Assembly} {bytes : List UInt8}

theorem holds_blank : blank.Holds .idle := ⟨Nat.zero_le _, rfl, rfl, rfl, rfl⟩

/-- A start byte is the first one in the buffer. -/
theorem holds_start (buffer : Buffer) (assembly : Assembly) :
    buffer.start.Holds assembly.start :=
  ⟨Nat.zero_le _, rfl, rfl, rfl, rfl⟩

/-- As many bytes are taken out of the cells as were put in. -/
theorem exists_store? (cells : Vector UInt8 Assembly.capacity) {position : Nat}
    (within : position + bytes.length ≤ Assembly.capacity) :
    ∃ written, store? cells position bytes = some written ∧
      written.toList.take (position + bytes.length) = cells.toList.take position ++ bytes := by
  have front : (cells.toList.take position ++ bytes).length = position + bytes.length := by
    simp only [List.length_append, List.length_take, Vector.length_toList]
    omega
  exact ⟨_, dif_pos within, List.take_left' front⟩

namespace Holds

/-- What a buffer holds can be read from it. -/
theorem assembly?_eq (holds : buffer.Holds assembly) : buffer.assembly? = some assembly := by
  rw [assembly?, if_pos holds.within, holds.content, holds.receiving, holds.first,
    holds.handedOut]

/-- A buffer counts the bytes that it holds. -/
theorem length_eq (holds : buffer.Holds assembly) : buffer.length = assembly.data.length := by
  rw [← holds.content, List.length_take, Vector.length_toList,
    Nat.min_eq_left holds.within]

/-- A buffer and what it holds go on to the next piece together. -/
theorem nextPiece (holds : buffer.Holds assembly) : buffer.nextPiece.Holds assembly.nextPiece := by
  unfold Buffer.nextPiece Assembly.nextPiece
  rw [holds.handedOut]
  split
  · exact ⟨Nat.zero_le _, rfl, holds.receiving, rfl, rfl⟩
  · exact holds

/-- A buffer and what it holds end a message together. -/
theorem finish (holds : buffer.Holds assembly) : buffer.finish.Holds assembly.finish :=
  { holds.nextPiece with receiving := rfl }

/-- A buffer has as much room as what it holds. -/
theorem hasRoom_eq (holds : buffer.Holds assembly) (amount : Nat) :
    buffer.hasRoom amount = assembly.hasRoom amount := by
  rw [Buffer.hasRoom, Assembly.hasRoom, Assembly.used, holds.handedOut, holds.length_eq]

/-- An open message can be handed out. -/
theorem exists_handOut? (holds : buffer.Holds assembly) (receiving : assembly.receiving = true) :
    ∃ next, buffer.handOut? = some next ∧ next.Holds assembly.handOut :=
  ⟨_, if_pos (holds.receiving.trans receiving), { holds with handedOut := rfl }⟩

/-- Bytes that find room end within the cells. -/
theorem exists_append? (holds : buffer.Holds assembly) (bytes : List UInt8)
    (room : assembly.hasRoom bytes.length = true) :
    ∃ next, buffer.append? bytes = some next ∧ next.Holds (assembly.append bytes) := by
  have piece := holds.nextPiece
  have within : buffer.nextPiece.length + bytes.length ≤ Assembly.capacity := by
    rw [piece.length_eq, Assembly.length_nextPiece]
    simpa [Assembly.hasRoom] using room
  have fresh : buffer.nextPiece.handedOut = false :=
    piece.handedOut.trans (Assembly.handedOut_nextPiece assembly)
  have free : buffer.nextPiece.hasRoom bytes.length = true := by
    simpa [Buffer.hasRoom, fresh] using within
  obtain ⟨written, stored, content⟩ := exists_store? buffer.nextPiece.cells within
  refine ⟨_, by rw [append?, if_pos free, stored]; rfl, ?_⟩
  constructor
  · exact within
  · rw [content, piece.content]
    rfl
  · exact piece.receiving
  · exact piece.first
  · exact piece.handedOut

end Holds

end Buffer

end MidiTransport.SysEx
