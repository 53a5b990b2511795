import MidiTransport.Ble.Timestamp

/-!
# The MIDI bytes of a BLE-MIDI packet

A packet carries a MIDI byte stream, broken up by its header and by time bytes. A
cursor walks over a packet and keeps the time of the byte it has read last. Time
bytes and status bytes look alike: of two bytes with a set top bit in a row the first
is the time and the second the status, and data bytes stand in between.

A cursor holds no bytes, only its position in them. The bytes of one packet may come
in several parts, and then the position starts again at 0 with each part.
-/

namespace MidiTransport.Ble

/-- A position in a packet. -/
structure Cursor where
  /-- The time of the byte that has been read last. -/
  time : Nat
  /-- The byte in front of the position was a time byte. -/
  afterTime : Bool
  /-- The number of bytes in front of the position. -/
  offset : Nat
  /-- The packet is malformed and is skipped with all its parts. -/
  discarding : Bool
  deriving DecidableEq, Repr

namespace Cursor

/-- The position before any packet. -/
def initial : Cursor := ⟨0, false, 0, false⟩

/-- Go to the start of a packet. A packet needs two bytes and a header with a set top
bit, and is skipped otherwise. If its second byte is data, it goes on with a system
exclusive message and has no time byte in front. -/
def beginPacket (cursor : Cursor) (packet : List UInt8) : Cursor × Bool :=
  match packet with
  | header :: second :: _ =>
    if isData header then ({ cursor with discarding := true }, false)
    else if isData second then (⟨headerTime header, false, 1, false⟩, true)
    else (⟨headerTime header + second.toNat % 128, true, 2, false⟩, true)
  | _ => ({ cursor with discarding := true }, false)

/-- Go to the start of a further part of the packet. -/
def beginPart (cursor : Cursor) : Cursor := { cursor with offset := 0 }

/-- Step over one byte. A time byte moves the time, every other one is MIDI. -/
def accept (cursor : Cursor) (byte : UInt8) : Cursor × Option UInt8 :=
  if isData byte || cursor.afterTime then
    ({ cursor with afterTime := false, offset := cursor.offset + 1 }, some byte)
  else
    ({ cursor with
        time := advanceTime cursor.time byte
        afterTime := true
        offset := cursor.offset + 1 },
      none)

/-- Find the first MIDI byte among the bytes behind the position. -/
def find (cursor : Cursor) : List UInt8 → Cursor × Option UInt8
  | [] => (cursor, none)
  | byte :: rest =>
    match cursor.accept byte with
    | (next, some byte) => (next, some byte)
    | (next, none) => next.find rest

/-- All MIDI bytes behind the position, each with its time. -/
def findAll (cursor : Cursor) : List UInt8 → List (UInt8 × Nat) × Cursor
  | [] => ([], cursor)
  | byte :: rest =>
    let (next, found?) := cursor.accept byte
    let (later, final) := next.findAll rest
    (found?.toList.map (·, next.time) ++ later, final)

/-- The bytes of `data` behind the position, of which a skipped packet has none. -/
def unread (cursor : Cursor) (data : List UInt8) : List UInt8 :=
  if cursor.discarding then [] else data.drop cursor.offset

/-- Read the next MIDI byte of `data`. -/
def pull (cursor : Cursor) (data : List UInt8) : Cursor × Option UInt8 :=
  cursor.find (cursor.unread data)

/-- Read all MIDI bytes of `data`, each with its time. -/
def pullAll (cursor : Cursor) (data : List UInt8) : List (UInt8 × Nat) × Cursor :=
  cursor.findAll (cursor.unread data)

@[simp] theorem offset_accept (cursor : Cursor) (byte : UInt8) :
    (cursor.accept byte).1.offset = cursor.offset + 1 := by
  unfold accept
  split <;> rfl

@[simp] theorem discarding_accept (cursor : Cursor) (byte : UInt8) :
    (cursor.accept byte).1.discarding = cursor.discarding := by
  unfold accept
  split <;> rfl

/-- Moving on, though not beyond the end, leaves less to read. -/
theorem length_unread_lt {before after : Cursor} {data : List UInt8}
    (moved : before.offset < after.offset)
    (within : after.offset ≤ before.offset + (before.unread data).length)
    (kept : after.discarding = before.discarding) :
    (after.unread data).length < (before.unread data).length := by
  unfold unread at within ⊢
  rw [kept]
  cases skipped : before.discarding with
  | true =>
    simp only [skipped, if_true, List.length_nil] at within
    omega
  | false =>
    simp only [skipped, Bool.false_eq_true, if_false, List.length_drop] at within ⊢
    omega

end Cursor

end MidiTransport.Ble
