import Mathlib.Data.List.Chain
import MidiTransport.Proofs.Ble.RingSpace

/-!
# Where the headers of a ring are

The headers of a ring can be found from its bytes alone: the first one is that of the current chunk,
and every other one comes right behind the chunk in front of it, around the end of the ring. With
their chunks they are tiles of the occupied bytes (`Ring.Tiles`), and a header without a kind is
either the first one or padding (`Ring.Tiling`). The chunks of a queue lie in a ring in this way
(`Ring.Holds.exists_tiling`), between positions that are all even and within the ring
(`Ring.Holds.bounded`).
-/

namespace MidiTransport.Ble.Ring

/-- The number of bytes of the header at a position and its chunk. -/
def spanAt (ring : Ring) (position : Nat) : Nat := chunkSpan (ring.lengthAt position)

/-- The number of bytes of all headers at these places and their chunks. -/
def spanOf (ring : Ring) : List Nat → Nat
  | [] => 0
  | place :: later => ring.spanAt place + ring.spanOf later

/-- Headers at these places lie with their chunks behind one another in so many bytes from a
position on. None of them goes beyond the end of the ring. -/
structure Tiles (ring : Ring) (position amount : Nat) (places : List Nat) : Prop where
  first : ∀ place ∈ places.head?, place = position
  next : places.IsChain fun place behind => behind = (place + ring.spanAt place) % ring.capacity
  whole : ring.spanOf places = amount
  within : ∀ place ∈ places, place % 2 = 0 ∧ place + ring.spanAt place ≤ ring.capacity

/-- A header is padding if it has no data and stands at the very end of the ring, and the header of
a chunk follows at the start. -/
structure IsPadding (ring : Ring) (place : Nat) (behind : List Nat) : Prop where
  empty : ring.lengthAt place = 0
  last : place + headerLength = ring.capacity
  around : behind.head? = some 0
  chunk : (ring.kindAt 0).isSome

/-- Every header without a kind is padding. -/
def Padded (ring : Ring) (places : List Nat) : Prop :=
  ∀ front place behind, places = front ++ place :: behind → ring.kindAt place = none →
    ring.IsPadding place behind

/-- The header of the current chunk and the ones at these places are tiles of the occupied bytes. -/
structure Tiling (ring : Ring) (waiting : List Nat) : Prop where
  tiles : ring.Tiles ring.readAt ring.occupied (ring.readAt :: waiting)
  padded : ring.Padded waiting

/-- Positions and the number of occupied bytes are even and within the ring, and the next header is
written behind the occupied bytes. -/
structure Bounded (ring : Ring) : Prop where
  readAt : ring.readAt % 2 = 0 ∧ ring.readAt < ring.capacity
  writeAt : ring.writeAt % 2 = 0 ∧ ring.writeAt < ring.capacity
  occupied : ring.occupied % 2 = 0 ∧ 2 ≤ ring.occupied ∧ ring.occupied ≤ ring.capacity
  behind : ring.writeAt = (ring.readAt + ring.occupied) % ring.capacity

variable {ring : Ring} {queue : ChunkQueue} {position amount place : Nat} {places : List Nat}
  {chunks : List (ChunkKind × List UInt8)}

/-- One more chunk in front is one more tile. -/
theorem Tiles.cons {kind : Option ChunkKind} {data : List UInt8}
    (tiles : ring.Tiles ((position + chunkSpan data.length) % ring.capacity) amount places)
    (stored : Stored ring.bytes position kind data) :
    ring.Tiles position (chunkSpan data.length + amount) (position :: places) := by
  have span : ring.spanAt position = chunkSpan data.length := by
    rw [spanAt, stored.lengthAt_eq]
  refine ⟨by simp, ?_, ?_, List.forall_mem_cons.mpr ⟨⟨stored.even, ?_⟩, tiles.within⟩⟩
  · rw [List.isChain_cons, span]
    exact ⟨tiles.first, tiles.next⟩
  · rw [spanOf, span, tiles.whole]
  · rw [span]
    exact stored.within

theorem padded_nil : ring.Padded [] := by
  intro front place behind split
  simp at split

/-- One more header in front is a chunk's, or else it is padding itself. -/
theorem Padded.cons (padded : ring.Padded places)
    (padding : ring.kindAt place = none → ring.IsPadding place places) :
    ring.Padded (place :: places) := by
  intro front other behind split none
  cases front with
  | nil =>
    obtain ⟨rfl, rfl⟩ := List.cons.inj split
    exact padding none
  | cons _ front =>
    obtain ⟨-, rfl⟩ := List.cons.inj split
    exact padded front other behind rfl none

/-- Chunks that wait are tiles, of which those without a kind are padding. -/
theorem Waiting.exists_tiles (waiting : Waiting ring.bytes position chunks amount) :
    ∃ places, ring.Tiles position amount places ∧ ring.Padded places := by
  induction waiting with
  | none => exact ⟨[], ⟨by simp, .nil, rfl, by simp⟩, padded_nil⟩
  | @chunk position amount kind data later stored rest ih =>
    obtain ⟨places, tiles, padded⟩ := ih
    refine ⟨_, tiles.cons stored, padded.cons fun none => ?_⟩
    cases stored.kindAt_eq.symm.trans none
  | @padded position amount kind data later atEnd padding stored rest ih =>
    obtain ⟨places, tiles, padded⟩ := ih
    have around : (position + chunkSpan ([] : List UInt8).length) % ring.capacity = 0 := by
      rw [show position + chunkSpan ([] : List UInt8).length = ring.capacity from atEnd,
        Nat.mod_self]
    rw [← Nat.zero_add (chunkSpan data.length)] at tiles
    have behind := tiles.cons stored
    rw [← around] at behind
    have both := behind.cons padding
    rw [around] at both
    refine ⟨position :: 0 :: places, ?_, ?_⟩
    · rw [Nat.add_assoc]
      exact both
    · refine (padded.cons fun none => ?_).cons fun _ =>
        ⟨padding.lengthAt_eq, atEnd, rfl, Option.isSome_of_eq_some stored.kindAt_eq⟩
      cases stored.kindAt_eq.symm.trans none

namespace Holds

/-- The chunks of a ring that holds a queue are tiles, from the current one on. -/
theorem exists_tiling (holds : ring.Holds queue) : ∃ waiting, ring.Tiling waiting := by
  obtain ⟨amount, occupied, waiting⟩ := holds.laid.waiting
  obtain ⟨places, tiles, padded⟩ := waiting.exists_tiles
  have whole := tiles.cons holds.laid.stored
  rw [← occupied] at whole
  exact ⟨places, whole, padded⟩

/-- A ring that holds a queue has its positions within its capacity. -/
theorem bounded (holds : ring.Holds queue) : ring.Bounded where
  readAt := ⟨holds.laid.stored.even, holds.laid.readAt_lt⟩
  writeAt := by
    have reach := holds.writeAt_add_le
    rw [headerLength] at reach
    exact ⟨holds.writeAt_even, by omega⟩
  occupied := ⟨holds.laid.occupied_even, holds.headerLength_le_occupied, holds.laid.bounded⟩
  behind := holds.behind

end Holds

end MidiTransport.Ble.Ring
