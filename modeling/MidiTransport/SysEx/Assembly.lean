import MidiTransport.Message.Basic

/-!
# Assembling system exclusive messages

A receiver collects the bytes of a system exclusive message until the message is
over or as many bytes are held as fit. In the second case the bytes are handed out
as a piece. They stay readable until the next byte arrives, and only that byte
opens the next piece.
-/

namespace MidiTransport.SysEx

/-- The bytes of a system exclusive message that have been received but not yet
been dropped. -/
structure Assembly where
  data : List UInt8
  /-- A message is open: it has been started and not been finished. -/
  receiving : Bool
  /-- The bytes belong to the first piece of their message. -/
  first : Bool
  /-- The bytes have been handed out and make room for the next byte. -/
  handedOut : Bool
  deriving DecidableEq, Repr

namespace Assembly

/-- The largest number of bytes in one piece. -/
def capacity : Nat := 128

/-- The assembly of a receiver that has not seen any message. -/
def idle : Assembly := ⟨[], false, false, false⟩

/-- Drop an unfinished message and open a new one. -/
def start (_ : Assembly) : Assembly := ⟨[], true, true, false⟩

/-- Bytes that have been handed out give way to the next piece. -/
def nextPiece (assembly : Assembly) : Assembly :=
  if assembly.handedOut then { assembly with data := [], first := false, handedOut := false }
  else assembly

/-- Close the message. -/
def finish (assembly : Assembly) : Assembly :=
  { assembly.nextPiece with receiving := false }

/-- Mark the bytes as handed out. -/
def handOut (assembly : Assembly) : Assembly := { assembly with handedOut := true }

/-- The number of bytes that the next byte will find in front of it. -/
def used (assembly : Assembly) : Nat :=
  if assembly.handedOut then 0 else assembly.data.length

/-- Do this many more bytes fit into the piece? -/
def hasRoom (assembly : Assembly) (amount : Nat) : Bool :=
  assembly.used + amount ≤ capacity

/-- Add bytes to the piece, or to the next one if this one has been handed out. -/
def append (assembly : Assembly) (bytes : List UInt8) : Assembly :=
  { assembly.nextPiece with data := assembly.nextPiece.data ++ bytes }

/-- What can be read from an assembly: its bytes, and their place in the message. -/
def piece (assembly : Assembly) (cable : Cable) : SysExPiece :=
  ⟨assembly.data, cable, assembly.first, !assembly.receiving⟩

@[simp] theorem receiving_nextPiece (assembly : Assembly) :
    assembly.nextPiece.receiving = assembly.receiving := by
  unfold nextPiece; split <;> rfl

@[simp] theorem handedOut_nextPiece (assembly : Assembly) :
    assembly.nextPiece.handedOut = false := by
  unfold nextPiece; split <;> simp_all

@[simp] theorem receiving_append (assembly : Assembly) (bytes : List UInt8) :
    (assembly.append bytes).receiving = assembly.receiving := by
  simp [append]

@[simp] theorem handedOut_append (assembly : Assembly) (bytes : List UInt8) :
    (assembly.append bytes).handedOut = false := by
  simp [append]

@[simp] theorem receiving_finish (assembly : Assembly) : assembly.finish.receiving = false := rfl

@[simp] theorem handedOut_finish (assembly : Assembly) : assembly.finish.handedOut = false := by
  simp [finish]

/-- The bytes in front of the next one are those that are still held. -/
theorem length_nextPiece (assembly : Assembly) :
    assembly.nextPiece.data.length = assembly.used := by
  unfold nextPiece used; split <;> simp_all

/-- Bytes that fit keep a piece within its capacity. -/
theorem length_append_le {assembly : Assembly} {bytes : List UInt8}
    (room : assembly.hasRoom bytes.length = true) :
    (assembly.append bytes).data.length ≤ capacity := by
  simp only [hasRoom, decide_eq_true_eq] at room
  simp only [append, List.length_append, length_nextPiece]
  exact room

/-- An assembly without room has not been handed out. -/
theorem handedOut_eq_false_of_hasRoom {assembly : Assembly} {amount : Nat}
    (small : amount ≤ capacity) (full : assembly.hasRoom amount = false) :
    assembly.handedOut = false := by
  cases handed : assembly.handedOut with
  | false => rfl
  | true => simp [hasRoom, used, handed, small] at full

end Assembly

end MidiTransport.SysEx
