/-!
# A ring of chunks

A ring hands chunks of packet data over to a reader, in the order of their arrival,
through a fixed number of bytes. Every chunk is preceded by a header of two bytes
with its length and its kind, and takes an even number of bytes. A chunk is never
broken by the end of the ring: what does not fit in front of the end goes to the
start as a chunk of its own, which continues the first part. A header at the very end
with nothing behind it is marked as padding.

The chunk that was popped last stays readable until the next pop. When no chunk
waits, a header without data keeps its place. Positions alone do not tell a full ring
from an empty one, so the ring counts its occupied bytes.
-/

namespace MidiTransport.Ble

/-- How a chunk relates to the chunk before it. -/
inductive ChunkKind where
  /-- A new packet starts. -/
  | packet
  /-- The packet goes on. -/
  | continuation
  deriving DecidableEq, Repr

namespace ChunkKind

/-- All kinds, in the order of their codes. -/
def all : List ChunkKind := [.packet, .continuation]

/-- The two-bit code of a header. Padding and a header that only keeps a place have
no kind. -/
def code : Option ChunkKind → Nat
  | none => 0
  | some .packet => 1
  | some .continuation => 2

/-- The kind with this code. -/
def ofCode (code : Nat) : Option ChunkKind :=
  match code with
  | 1 => some .packet
  | 2 => some .continuation
  | _ => none

theorem ofCode_code (kind : Option ChunkKind) : ofCode (code kind) = kind := by
  match kind with
  | none | some .packet | some .continuation => rfl

end ChunkKind

/-- Chunks in a fixed number of bytes. -/
structure Ring where
  bytes : Array UInt8
  /-- The position of the header of the current chunk. -/
  readAt : Nat
  /-- The position of the next header to be written. -/
  writeAt : Nat
  /-- The number of bytes from the current chunk's header on that are in use. -/
  occupied : Nat
  deriving DecidableEq, Repr

/-- Where a chunk goes. -/
inductive Layout where
  /-- Behind the chunk before it. -/
  | contiguous
  /-- To the start of the ring, because only a header fits in front of the end. -/
  | padded
  /-- In two parts, of which the first one has this length. -/
  | split (head : Nat)
  deriving DecidableEq, Repr

namespace Ring

/-- The length of a header. -/
def headerLength : Nat := 2

/-- The largest length of a chunk, for which a header has fourteen bits. -/
def maxChunkLength : Nat := 0x3FFF

/-- The number of bytes that data of this length takes. -/
def roundUp (length : Nat) : Nat := length + length % 2

/-- The ring of this many bytes, an even number of at least four. It starts with a
header that keeps the place of the current chunk. -/
def empty (capacity : Nat) : Ring := ⟨Array.replicate capacity 0, 0, headerLength, headerLength⟩

/-- The number of bytes of a ring, used or not. -/
def capacity (ring : Ring) : Nat := ring.bytes.size

/-- Put data at a position. -/
def write (bytes : Array UInt8) (position : Nat) : List UInt8 → Array UInt8
  | [] => bytes
  | byte :: rest => write (bytes.setIfInBounds position byte) (position + 1) rest

/-- The data of this length at a position. -/
def slice (bytes : Array UInt8) (position length : Nat) : List UInt8 :=
  (bytes.extract position (position + length)).toList

/-- The bytes of a header, the lower one first. -/
def header (length : Nat) (kind : Option ChunkKind) : List UInt8 :=
  let word := length + ChunkKind.code kind * 0x4000
  [UInt8.ofNat (word % 0x100), UInt8.ofNat (word / 0x100)]

/-- The value of the header at a position. -/
def headerAt (bytes : Array UInt8) (position : Nat) : Nat :=
  (bytes.getD position 0).toNat + (bytes.getD (position + 1) 0).toNat * 0x100

/-- The length of the chunk at a position. -/
def lengthAt (ring : Ring) (position : Nat) : Nat := headerAt ring.bytes position % 0x4000

/-- The kind of the chunk at a position. -/
def kindAt (ring : Ring) (position : Nat) : Option ChunkKind :=
  ChunkKind.ofCode (headerAt ring.bytes position / 0x4000)

/-- The number of bytes between the next header and the end of the ring. -/
def gap (ring : Ring) : Nat := ring.capacity - ring.writeAt - headerLength

/-- Where a chunk of this length goes. -/
def layout (ring : Ring) (length : Nat) : Layout :=
  if length ≤ ring.gap then .contiguous
  else if ring.gap = 0 then .padded
  else .split ring.gap

/-- The number of bytes that a chunk of this length takes, with its headers. -/
def needed (length : Nat) : Layout → Nat
  | .contiguous => headerLength + roundUp length
  | .padded => 2 * headerLength + roundUp length
  | .split head => 2 * headerLength + head + roundUp (length - head)

/-- Write a header and the data behind it. -/
def writeChunk (bytes : Array UInt8) (position : Nat) (data : List UInt8)
    (kind : Option ChunkKind) : Array UInt8 :=
  write bytes position (header data.length kind ++ data)

/-- Write a chunk and its headers. -/
def place (ring : Ring) (data : List UInt8) (kind : ChunkKind) : Layout → Array UInt8
  | .contiguous => writeChunk ring.bytes ring.writeAt data (some kind)
  | .padded => writeChunk (writeChunk ring.bytes ring.writeAt [] none) 0 data (some kind)
  | .split head =>
    writeChunk (writeChunk ring.bytes ring.writeAt (data.take head) (some kind)) 0
      (data.drop head) (some .continuation)

/-- Add a chunk behind all others. The answer tells whether there was room. -/
def push (ring : Ring) (data : List UInt8) (kind : ChunkKind) : Ring × Bool :=
  let layout := ring.layout data.length
  let needed := needed data.length layout
  if data.length ≤ maxChunkLength ∧ ring.occupied + needed ≤ ring.capacity then
    ({ ring with
        bytes := ring.place data kind layout
        writeAt := (ring.writeAt + needed) % ring.capacity
        occupied := ring.occupied + needed },
      true)
  else (ring, false)

/-- Release the current chunk and go to the next one, over padding. The answer is the
kind of the next chunk. If there is none, a header without data takes its place. -/
def pop (ring : Ring) : Ring × Option ChunkKind :=
  let held := roundUp (ring.lengthAt ring.readAt)
  if _more : headerLength + held < ring.occupied then
    let next := { ring with
      readAt := (ring.readAt + headerLength + held) % ring.capacity
      occupied := ring.occupied - (headerLength + held) }
    match next.kindAt next.readAt with
    | some kind => (next, some kind)
    | none => next.pop
  else
    ({ ring with
        bytes := writeChunk ring.bytes (ring.readAt + held) [] none
        readAt := ring.readAt + held
        occupied := ring.occupied - held },
      none)
termination_by ring.occupied
decreasing_by
  simp only [headerLength] at _more ⊢
  omega

/-- The kind and the data of the current chunk. -/
def current (ring : Ring) : Option ChunkKind × List UInt8 :=
  (ring.kindAt ring.readAt,
    slice ring.bytes (ring.readAt + headerLength) (ring.lengthAt ring.readAt))

/-- Go to the next chunk and read it, if there is one. -/
def takeChunk (ring : Ring) : Ring × Option (ChunkKind × List UInt8) :=
  match ring.pop with
  | (next, none) => (next, none)
  | (next, some kind) => (next, some (kind, next.current.2))

/-- Going to a next chunk releases at least the current chunk's header. -/
theorem occupied_pop_lt {ring : Ring} {kind : ChunkKind} (found : ring.pop.2 = some kind) :
    ring.pop.1.occupied < ring.occupied := by
  fun_induction pop ring with
  | case1 ring held more next kind' atNext =>
    simp only [headerLength, next] at more ⊢
    omega
  | case2 ring held more next atNext ih =>
    have later := ih found
    have released : next.occupied < ring.occupied := by
      simp only [headerLength, next] at more ⊢
      omega
    exact Nat.lt_trans later released
  | case3 => cases found

/-- All chunks that wait, from the oldest on. -/
def takeAll (ring : Ring) : List (ChunkKind × List UInt8) × Ring :=
  match _found : ring.pop.2 with
  | none => ([], ring.pop.1)
  | some kind =>
    let (later, final) := ring.pop.1.takeAll
    ((kind, ring.pop.1.current.2) :: later, final)
termination_by ring.occupied
decreasing_by exact occupied_pop_lt _found

end Ring

end MidiTransport.Ble
