import MidiTransport.Ble.Reader
import MidiTransport.Ble.Ring

/-!
# Reading messages out of a ring

A buffered reader takes its packet data from the chunks of a ring. It stays within
the current chunk until that holds no further message and then goes to the next one.
-/

namespace MidiTransport.Ble

/-- A reader with the ring that it reads from. -/
structure BufferedReader where
  ring : Ring
  reader : Reader
  deriving DecidableEq, Repr

namespace BufferedReader

/-- A new reader of a ring. -/
def ofRing (ring : Ring) : BufferedReader := ⟨ring, .initial⟩

/-- The data of the current chunk. -/
def chunk (buffered : BufferedReader) : List UInt8 := buffered.ring.current.2

/-- The time of the last message. -/
def time (buffered : BufferedReader) : Nat := buffered.reader.cursor.time

/-- Add a chunk to the ring. -/
def push (buffered : BufferedReader) (data : List UInt8) (kind : ChunkKind) :
    BufferedReader × Bool :=
  let (ring, accepted) := buffered.ring.push data kind
  ({ buffered with ring }, accepted)

/-- Go to the next chunk without telling the reader. -/
def skip (buffered : BufferedReader) : BufferedReader × Option ChunkKind :=
  let (ring, kind?) := buffered.ring.pop
  ({ buffered with ring }, kind?)

/-- Put a new reader in the place of the old one. The ring stays as it is. -/
def restart (buffered : BufferedReader) : BufferedReader := .ofRing buffered.ring

/-- Turn to a chunk of this kind, which the ring has just gone to. -/
def enter (reader : Reader) (ring : Ring) : ChunkKind → BufferedReader
  | .packet => ⟨ring, { reader with cursor := (reader.cursor.beginPacket ring.current.2).1 }⟩
  | .continuation => ⟨ring, { reader with cursor := reader.cursor.beginPart }⟩

@[simp] theorem ring_enter (reader : Reader) (ring : Ring) (kind : ChunkKind) :
    (enter reader ring kind).ring = ring := by
  cases kind <;> rfl

/-- Read up to the next message, through as many chunks as it takes. -/
def pull (buffered : BufferedReader) : BufferedReader × Option Event :=
  match buffered.reader.pull buffered.chunk with
  | (reader, some event) => ({ buffered with reader }, some event)
  | (reader, none) =>
    match _found : buffered.ring.pop.2 with
    | none => (⟨buffered.ring.pop.1, reader⟩, none)
    | some kind => (enter reader buffered.ring.pop.1 kind).pull
termination_by buffered.ring.occupied
decreasing_by
  rw [ring_enter]
  exact Ring.occupied_pop_lt _found

/-- A pull that finds a message releases a chunk or comes closer to the end of the
current one. -/
theorem pull_decreases {buffered : BufferedReader} {event : Event}
    (found : buffered.pull.2 = some event) :
    buffered.pull.1.ring.occupied < buffered.ring.occupied ∨
      (buffered.pull.1.ring = buffered.ring ∧
        buffered.pull.1.reader.distance buffered.chunk <
          buffered.reader.distance buffered.chunk) := by
  fun_induction pull buffered with
  | case1 buffered reader event' equation =>
    have closer := Reader.distance_pull_lt (congrArg Prod.snd equation)
    rw [equation] at closer
    exact .inr ⟨rfl, closer⟩
  | case2 => cases found
  | case3 buffered reader equation kind popped ih =>
    have released := Ring.occupied_pop_lt popped
    have later := ih found
    simp only [ring_enter] at later
    refine .inl ?_
    rcases later with less | ⟨same, _⟩
    · exact Nat.lt_trans less released
    · rw [same]
      exact released

/-- The pulls that use up the ring. Each but the last one finds a message. -/
def pulls (buffered : BufferedReader) : List (BufferedReader × Option Event) :=
  match _found : buffered.pull.2 with
  | none => [buffered.pull]
  | some _ => buffered.pull :: buffered.pull.1.pulls
termination_by (buffered.ring.occupied, buffered.reader.distance buffered.chunk)
decreasing_by
  rcases pull_decreases _found with less | ⟨same, closer⟩
  · exact Prod.Lex.left _ _ less
  · simp only [chunk, same]
    exact Prod.Lex.right _ closer

end BufferedReader

end MidiTransport.Ble
