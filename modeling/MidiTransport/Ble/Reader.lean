import MidiTransport.Ble.Cursor
import MidiTransport.Stream.Drain

/-!
# Reading messages out of BLE-MIDI packets

A reader strips packets with a `Cursor` and decodes the bytes that remain. On this
link system common messages leave the running status alone. `Reader.readPacket` and
`Reader.readPart` read a packet, or a further part of it, to its end and answer with
its messages and their times.
-/

namespace MidiTransport.Ble

/-- The state of a reader. -/
structure Reader where
  cursor : Cursor
  decoder : Stream.Decoder
  deriving DecidableEq, Repr

namespace Reader

/-- A reader before the first packet. -/
def initial : Reader := ⟨.initial, .initial true⟩

/-- Read the bytes behind the position up to the first one that completes a message. -/
def scan (reader : Reader) : List UInt8 → Reader × Option Event
  | [] => (reader, none)
  | byte :: rest =>
    match reader.cursor.accept byte with
    | (cursor, none) => { reader with cursor }.scan rest
    | (cursor, some midi) =>
      match reader.decoder.feed midi with
      | (decoder, some event) => (⟨cursor, decoder⟩, some event)
      | (decoder, none) => Reader.scan ⟨cursor, decoder⟩ rest

/-- Act on a byte that was held back and then read on in `data`, up to the next message. -/
def pull (reader : Reader) (data : List UInt8) : Reader × Option Event :=
  match reader.decoder.resume with
  | (decoder, some event) => ({ reader with decoder }, some event)
  | (decoder, none) => { reader with decoder }.scan (reader.cursor.unread data)

/-- How far a reader is from the end of `data`. -/
def distance (reader : Reader) (data : List UInt8) : Nat :=
  5 * (reader.cursor.unread data).length + reader.decoder.backlog

/-- A message found behind the position has moved it on, not beyond the end. -/
theorem offset_scan {reader : Reader} {unread : List UInt8} {event : Event}
    (found : (reader.scan unread).2 = some event) :
    reader.cursor.offset < (reader.scan unread).1.cursor.offset ∧
      (reader.scan unread).1.cursor.offset ≤ reader.cursor.offset + unread.length ∧
      (reader.scan unread).1.cursor.discarding = reader.cursor.discarding := by
  induction unread generalizing reader with
  | nil => simp [scan] at found
  | cons byte rest ih =>
    have moved := reader.cursor.offset_accept byte
    have kept := reader.cursor.discarding_accept byte
    unfold scan at found ⊢
    split at found
    · rename_i cursor equation
      rw [equation] at moved kept
      have later := ih found
      simp only [List.length_cons] at later moved kept ⊢
      refine ⟨by omega, by omega, later.2.2.trans kept⟩
    · rename_i cursor midi equation
      rw [equation] at moved kept
      split at found
      · simp only [List.length_cons] at moved kept ⊢
        exact ⟨by omega, by omega, kept⟩
      · have later := ih found
        simp only [List.length_cons] at later moved kept ⊢
        exact ⟨by omega, by omega, later.2.2.trans kept⟩

/-- Every pull that finds a message comes closer to the end. -/
theorem distance_pull_lt {reader : Reader} {data : List UInt8} {event : Event}
    (found : (reader.pull data).2 = some event) :
    (reader.pull data).1.distance data < reader.distance data := by
  unfold pull at found ⊢
  split at found
  · rename_i decoder early equation
    have lowered : reader.decoder.resume.1.backlog < reader.decoder.backlog :=
      Stream.Decoder.backlog_resume_lt (congrArg Prod.snd equation)
    rw [equation] at lowered
    simp only [distance] at lowered ⊢
    omega
  · rename_i decoder equation
    have moved := offset_scan found
    have shorter := Cursor.length_unread_lt moved.1 moved.2.1 moved.2.2
    have bounded := (Reader.scan { reader with decoder }
      (reader.cursor.unread data)).1.decoder.backlog_le
    simp only [distance] at shorter bounded ⊢
    omega

/-- All messages up to the end of `data`, each with its time. -/
def drain (reader : Reader) (data : List UInt8) : List (Message × Nat) × Reader :=
  match _found : (reader.pull data).2 with
  | none => ([], (reader.pull data).1)
  | some event =>
    let next := (reader.pull data).1
    let (later, final) := next.drain data
    ((event.message, next.cursor.time) :: later, final)
termination_by reader.distance data
decreasing_by exact distance_pull_lt _found

/-- Read a packet. A malformed packet brings no message. -/
def readPacket (reader : Reader) (packet : List UInt8) : List (Message × Nat) × Reader :=
  match reader.cursor.beginPacket packet with
  | (cursor, false) => ([], { reader with cursor })
  | (cursor, true) => { reader with cursor }.drain packet

/-- Read a further part of the last packet. -/
def readPart (reader : Reader) (part : List UInt8) : List (Message × Nat) × Reader :=
  { reader with cursor := reader.cursor.beginPart }.drain part

/-- Read several packets. -/
def readPackets (reader : Reader) : List (List UInt8) → List (Message × Nat) × Reader
  | [] => ([], reader)
  | packet :: packets =>
    let (messages, next) := reader.readPacket packet
    let (later, final) := next.readPackets packets
    (messages ++ later, final)

end Reader

end MidiTransport.Ble
