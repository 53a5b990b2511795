import MidiTransport.Proofs.Ble.RingTiles

/-!
# Which bytes of a ring a call uses

A ring has two users: the reader has the occupied bytes and the writer all others (`Ring.Owns`). A
guarded call carries out a call access by access, and has no result as soon as bytes are beyond the
end of the ring or belong to the other user, a length does not fit into a header, a number would
become negative, or a pop goes over more than one header of padding (`Ring.guarded`). In every run
each guarded call has the result of the call itself, so none of these ever happens
(`Ring.safe_of_run`).
-/

namespace MidiTransport.Ble.Ring

/-- The users of a ring. -/
inductive Side where
  | reader
  | writer

/-! ## Owned bytes -/

/-- How far a position is behind the header of the current chunk, around the end of the ring. -/
def distance (ring : Ring) (place : Nat) : Nat :=
  (place + ring.capacity - ring.readAt) % ring.capacity

/-- The byte at a place is one of the user's: the occupied bytes are the reader's. -/
def Owns (ring : Ring) (side : Side) (place : Nat) : Prop :=
  match side with
  | .reader => ring.distance place < ring.occupied
  | .writer => ring.occupied ≤ ring.distance place

/-- All bytes from a position on are within the ring, and are the user's. -/
def OwnsAll (ring : Ring) (side : Side) (position length : Nat) : Prop :=
  position + length ≤ ring.capacity ∧ ∀ index < length, ring.Owns side (position + index)

instance (ring : Ring) (side : Side) (place : Nat) : Decidable (ring.Owns side place) :=
  match side with
  | .reader => inferInstanceAs (Decidable (_ < _))
  | .writer => inferInstanceAs (Decidable (_ ≤ _))

instance (ring : Ring) (side : Side) (position length : Nat) :
    Decidable (ring.OwnsAll side position length) :=
  inferInstanceAs (Decidable (_ ∧ _))

/-! ## Guarded accesses -/

/-- A difference that is not negative. -/
def minus (total part : Nat) : Option Nat := if part ≤ total then some (total - part) else none

/-- Read the length and the kind in a header. -/
def fetchHeader (ring : Ring) (position : Nat) : Option (Nat × Option ChunkKind) :=
  if ring.OwnsAll .reader position headerLength then
    some (ring.lengthAt position, ring.kindAt position)
  else none

def fetch (ring : Ring) (position length : Nat) : Option (List UInt8) :=
  if ring.OwnsAll .reader position length then some (slice ring.bytes position length) else none

/-- Put data at a position if the bytes there are the user's. -/
def store (ring : Ring) (side : Side) (bytes : Array UInt8) (position : Nat) (data : List UInt8) :
    Option (Array UInt8) :=
  if ring.OwnsAll side position data.length then some (write bytes position data) else none

def storeHeader (ring : Ring) (side : Side) (bytes : Array UInt8) (position length : Nat)
    (kind : Option ChunkKind) : Option (Array UInt8) :=
  if length ≤ maxChunkLength then ring.store side bytes position (header length kind) else none

/-- Write a header and the data behind it, for the writer. -/
def storeChunk (ring : Ring) (bytes : Array UInt8) (position : Nat) (data : List UInt8)
    (kind : ChunkKind) : Option (Array UInt8) := do
  let bytes ← ring.storeHeader .writer bytes position data.length (some kind)
  ring.store .writer bytes (position + headerLength) data

/-! ## Guarded calls -/

/-- Write a chunk and its headers. -/
def guardedPlace (ring : Ring) (data : List UInt8) (kind : ChunkKind) :
    Layout → Option (Array UInt8)
  | .contiguous => ring.storeChunk ring.bytes ring.writeAt data kind
  | .padded => do
    let bytes ← ring.storeHeader .writer ring.bytes ring.writeAt 0 none
    ring.storeChunk bytes 0 data kind
  | .split head =>
    if head ≤ data.length then do
      let bytes ← ring.storeChunk ring.bytes ring.writeAt (data.take head) kind
      ring.storeChunk bytes 0 (data.drop head) .continuation
    else none

/-- Where a chunk of this length goes if so many bytes are left in front of the end. -/
def layoutWithin (gap length : Nat) : Layout :=
  if length ≤ gap then .contiguous else if gap = 0 then .padded else .split gap

/-- Add a chunk behind all others. -/
def guardedPush (ring : Ring) (data : List UInt8) (kind : ChunkKind) : Option (Ring × Bool) :=
  if data.length ≤ maxChunkLength then do
    let front ← minus ring.capacity ring.writeAt
    let gap ← minus front headerLength
    let layout := layoutWithin gap data.length
    let needed := needed data.length layout
    if ring.occupied + needed ≤ ring.capacity then
      let bytes ← ring.guardedPlace data kind layout
      some ({ ring with
          bytes
          writeAt := (ring.writeAt + needed) % ring.capacity
          occupied := ring.occupied + needed },
        true)
    else some (ring, false)
  else some (ring, false)

/-- Go to the next chunk, over at most so many headers. -/
def guardedPop (ring : Ring) : Nat → Option (Ring × Option ChunkKind)
  | 0 => none
  | headers + 1 => do
    let (length, _) ← ring.fetchHeader ring.readAt
    let held := roundUp length
    let others ← minus ring.occupied headerLength
    if others = held then
      let bytes ← ring.storeHeader .reader ring.bytes (ring.readAt + held) 0 none
      let occupied ← minus ring.occupied held
      some ({ ring with bytes, readAt := ring.readAt + held, occupied }, none)
    else
      let occupied ← minus ring.occupied (headerLength + held)
      let next := { ring with
        readAt := (ring.readAt + headerLength + held) % ring.capacity
        occupied }
      match ← next.fetchHeader next.readAt with
      | (_, some kind) => some (next, some kind)
      | (_, none) => next.guardedPop headers

/-- The kind and the data of the current chunk. -/
def guardedCurrent (ring : Ring) : Option (Option ChunkKind × List UInt8) := do
  let (length, kind) ← ring.fetchHeader ring.readAt
  let data ← ring.fetch (ring.readAt + headerLength) length
  some (kind, data)

/-- Carry out a call with a check of every access. A pop leaves the current chunk behind and at most
one header of padding. -/
def guarded (ring : Ring) : RingCall → Option (Ring × RingAnswer)
  | .push data kind => do
    let (next, accepted) ← ring.guardedPush data kind
    some (next, .pushed accepted)
  | .pop => do
    let (next, kind?) ← ring.guardedPop 2
    some (next, .popped kind?)
  | .current => do
    let chunk ← ring.guardedCurrent
    some (ring, .current chunk)
  | .takeChunk => do
    match ← ring.guardedPop 2 with
    | (next, none) => some (next, .taken none)
    | (next, some kind) =>
      let (_, data) ← next.guardedCurrent
      some (next, .taken (some (kind, data)))

variable {ring : Ring} {queue : ChunkQueue} {side : Side} {bytes : Array UInt8}
  {position offset length headers : Nat} {data ahead : List UInt8} {kind other : Option ChunkKind}

/-! ## Accesses within the bounds -/

theorem minus_of_le {total part : Nat} (enough : part ≤ total) :
    minus total part = some (total - part) := if_pos enough

/-- Bytes that start so far behind the current chunk's header follow one another around the ring. -/
theorem distance_add (inside : ring.readAt < ring.capacity)
    (place : position = (ring.readAt + offset) % ring.capacity)
    (within : position + length ≤ ring.capacity) (turn : offset + length ≤ ring.capacity)
    {index : Nat} (bound : index < length) : ring.distance (position + index) = offset + index := by
  have less : offset + index < ring.capacity := by omega
  rw [distance]
  rcases Nat.lt_or_ge (ring.readAt + offset) ring.capacity with straight | around
  · rw [Nat.mod_eq_of_lt straight] at place
    have more : position + index + ring.capacity - ring.readAt =
        offset + index + ring.capacity := by omega
    rw [more, Nat.add_mod_right, Nat.mod_eq_of_lt less]
  · rw [Nat.mod_eq_sub_mod around, Nat.mod_eq_of_lt (by omega)] at place
    have same : position + index + ring.capacity - ring.readAt = offset + index := by omega
    rw [same, Nat.mod_eq_of_lt less]

/-- A stretch of bytes that are owned is owned in every part. -/
theorem OwnsAll.part (owns : ring.OwnsAll side position length) (skip : Nat) {part : Nat}
    (inside : skip + part ≤ length) : ring.OwnsAll side (position + skip) part := by
  obtain ⟨within, each⟩ := owns
  refine ⟨by omega, fun index bound => ?_⟩
  rw [Nat.add_assoc]
  exact each (skip + index) (by omega)

/-- A header of a length that it can hold, at an owned place, is written. -/
theorem storeHeader_eq (short : length ≤ maxChunkLength)
    (owns : ring.OwnsAll side position headerLength) :
    ring.storeHeader side bytes position length kind =
      some (write bytes position (header length kind)) := by
  rw [storeHeader, if_pos short, store, length_header, if_pos owns]

/-- A chunk that is short enough, at an owned place, is written. -/
theorem storeChunk_eq {kind : ChunkKind} (short : data.length ≤ maxChunkLength)
    (owns : ring.OwnsAll .writer position (chunkSpan data.length)) :
    ring.storeChunk bytes position data kind =
      some (writeChunk bytes position data (some kind)) := by
  have front : ring.OwnsAll .writer position headerLength :=
    owns.part 0 (by rw [chunkSpan]; omega)
  have back : ring.OwnsAll .writer (position + headerLength) data.length :=
    owns.part headerLength (by rw [chunkSpan, roundUp]; omega)
  rw [storeChunk, storeHeader_eq short front, Option.bind_eq_bind, Option.bind_some, store,
    if_pos back, writeChunk, write_append, length_header]

/-- Bytes from an offset on are the reader's up to the number of occupied bytes. -/
theorem reader_owns (inside : ring.readAt < ring.capacity)
    (place : position = (ring.readAt + offset) % ring.capacity)
    (within : position + length ≤ ring.capacity) (turn : offset + length ≤ ring.capacity)
    (held : offset + length ≤ ring.occupied) : ring.OwnsAll .reader position length := by
  refine ⟨within, fun index bound => ?_⟩
  have distance := distance_add inside place within turn bound
  show ring.distance (position + index) < ring.occupied
  omega

/-- Bytes from an offset on are the writer's behind the occupied bytes. -/
theorem writer_owns (inside : ring.readAt < ring.capacity)
    (place : position = (ring.readAt + offset) % ring.capacity)
    (within : position + length ≤ ring.capacity) (turn : offset + length ≤ ring.capacity)
    (free : ring.occupied ≤ offset) : ring.OwnsAll .writer position length := by
  refine ⟨within, fun index bound => ?_⟩
  have distance := distance_add inside place within turn bound
  show ring.occupied ≤ ring.distance (position + index)
  omega

/-! ## Reading -/

/-- The current chunk and its header are the reader's. -/
theorem current_owns (stored : Stored ring.bytes ring.readAt kind data)
    (held : chunkSpan data.length ≤ ring.occupied) :
    ring.OwnsAll .reader ring.readAt (chunkSpan data.length) := by
  have within : ring.readAt + chunkSpan data.length ≤ ring.capacity := stored.within
  have positive := chunkSpan_pos data.length
  have inside : ring.readAt < ring.capacity := by omega
  have here : ring.readAt = (ring.readAt + 0) % ring.capacity :=
    (Nat.mod_eq_of_lt inside).symm
  exact reader_owns inside here within (by omega) (by omega)

/-- The header of the current chunk can be read. -/
theorem fetchHeader_eq (stored : Stored ring.bytes ring.readAt kind data)
    (held : chunkSpan data.length ≤ ring.occupied) :
    ring.fetchHeader ring.readAt = some (data.length, kind) := by
  have owns : ring.OwnsAll .reader ring.readAt headerLength :=
    (current_owns stored held).part 0 (by rw [chunkSpan]; omega)
  rw [fetchHeader, if_pos owns, stored.lengthAt_eq, stored.kindAt_eq]

/-- The current chunk can be read. -/
theorem guardedCurrent_eq (stored : Stored ring.bytes ring.readAt kind data)
    (held : chunkSpan data.length ≤ ring.occupied) : ring.guardedCurrent = some ring.current := by
  have owns : ring.OwnsAll .reader (ring.readAt + headerLength) data.length :=
    (current_owns stored held).part headerLength (by rw [chunkSpan, roundUp]; omega)
  rw [guardedCurrent, fetchHeader_eq stored held]
  simp only [Option.bind_eq_bind, Option.bind_some]
  rw [fetch, if_pos owns, Option.bind_some, current, stored.lengthAt_eq, stored.kindAt_eq]

/-! ## Popping -/

/-- If the current chunk is the only one, a header without data takes the place of its last two
bytes. -/
theorem guardedPop_of_last (stored : Stored ring.bytes ring.readAt kind data)
    (last : ring.occupied = chunkSpan data.length) :
    ring.guardedPop (headers + 1) = some ring.pop := by
  have held := Nat.le_of_eq last.symm
  have owns : ring.OwnsAll .reader (ring.readAt + roundUp data.length) headerLength :=
    (current_owns stored held).part (roundUp data.length) (by rw [chunkSpan]; omega)
  have others : ring.occupied - headerLength = roundUp data.length := by
    rw [last, chunkSpan]
    omega
  have left : ring.occupied - roundUp data.length = headerLength := by
    rw [last, chunkSpan]
    omega
  rw [chunkSpan] at last
  rw [guardedPop, fetchHeader_eq stored held]
  simp only [Option.bind_eq_bind, Option.bind_some]
  rw [minus_of_le (by omega), Option.bind_some, if_pos others,
    storeHeader_eq (Nat.zero_le _) owns, Option.bind_some, minus_of_le (by omega),
    Option.bind_some, Holds.pop_of_last (by rw [stored.lengthAt_eq, last, chunkSpan]),
    stored.lengthAt_eq, left]
  rfl

/-- If more follows the current chunk, that is what the reader has from then on. Only if it is
padding has the pop to go on. -/
theorem guardedPop_of_more (stored : Stored ring.bytes ring.readAt kind data)
    (more : chunkSpan data.length < ring.occupied)
    (next : Stored ring.bytes ring.release.readAt other ahead)
    (held : chunkSpan ahead.length ≤ ring.release.occupied)
    (later : other = none → ring.release.guardedPop headers = some ring.release.pop) :
    ring.guardedPop (headers + 1) = some ring.pop := by
  have others : ring.occupied - headerLength ≠ roundUp data.length := by
    rw [chunkSpan] at more
    omega
  have released : ({ ring with
      readAt := (ring.readAt + headerLength + roundUp data.length) % ring.capacity
      occupied := ring.occupied - (headerLength + roundUp data.length) } : Ring) =
        ring.release := by
    rw [release, stored.lengthAt_eq, chunkSpan, Nat.add_assoc]
  have place : (ring.readAt + headerLength + roundUp data.length) % ring.capacity =
      ring.release.readAt := by rw [← released]
  have found : ring.release.kindAt ring.release.readAt = other := next.kindAt_eq
  rw [guardedPop, fetchHeader_eq stored (Nat.le_of_lt more)]
  simp only [Option.bind_eq_bind, Option.bind_some]
  rw [chunkSpan] at more
  rw [minus_of_le (by omega), Option.bind_some, if_neg others, minus_of_le (by omega),
    Option.bind_some, released, place, fetchHeader_eq next held, Option.bind_some,
    Holds.pop_of_more (by rw [stored.lengthAt_eq, chunkSpan]; exact more), found]
  cases other with
  | some kind => rfl
  | none => exact later rfl

/-! ## Pushing -/

namespace Holds

/-- The start of the ring comes behind the bytes in front of its end. -/
theorem start_eq (holds : ring.Holds queue) :
    0 = (ring.readAt + (ring.occupied + (headerLength + ring.gap))) % ring.capacity := by
  have reach : ring.writeAt + (headerLength + ring.gap) = ring.capacity := holds.writeAt_add_gap
  rw [← Nat.add_assoc, ← Nat.mod_add_mod, ← holds.behind, reach, Nat.mod_self]

/-- Data that fit in front of the end of the ring are written to bytes of the writer. -/
theorem guardedPlace_contiguous (holds : ring.Holds queue) (kind : ChunkKind)
    (short : data.length ≤ maxChunkLength) (fits : data.length ≤ ring.gap)
    (free : ring.occupied + needed data.length .contiguous ≤ ring.capacity) :
    ring.guardedPlace data kind .contiguous = some (ring.place data kind .contiguous) := by
  have within := holds.writeAt_add_span_le fits
  exact storeChunk_eq short
    (writer_owns holds.laid.readAt_lt holds.behind within free (Nat.le_refl _))

/-- Padding in front of the end of the ring, and data at its start, are written to bytes of the
writer. -/
theorem guardedPlace_padded (holds : ring.Holds queue) (kind : ChunkKind)
    (short : data.length ≤ maxChunkLength) (tight : ring.gap = 0)
    (free : ring.occupied + needed data.length .padded ≤ ring.capacity) :
    ring.guardedPlace data kind .padded = some (ring.place data kind .padded) := by
  have start := holds.start_eq
  rw [tight, Nat.add_zero] at start
  have span : chunkSpan data.length = headerLength + roundUp data.length := rfl
  rw [needed] at free
  have padding : ring.OwnsAll .writer ring.writeAt headerLength :=
    writer_owns holds.laid.readAt_lt holds.behind holds.writeAt_add_le (by omega) (Nat.le_refl _)
  have chunk : ring.OwnsAll .writer 0 (chunkSpan data.length) :=
    writer_owns holds.laid.readAt_lt start (by omega) (by omega) (by omega)
  rw [guardedPlace, storeHeader_eq (Nat.zero_le _) padding, Option.bind_eq_bind,
    Option.bind_some, storeChunk_eq short chunk]
  rfl

/-- Both parts of data that go around the end of the ring are written to bytes of the writer. -/
theorem guardedPlace_split (holds : ring.Holds queue) (kind : ChunkKind)
    (short : data.length ≤ maxChunkLength) (beyond : ring.gap < data.length)
    (free : ring.occupied + needed data.length (.split ring.gap) ≤ ring.capacity) :
    ring.guardedPlace data kind (.split ring.gap) =
      some (ring.place data kind (.split ring.gap)) := by
  have reach : ring.writeAt + (headerLength + ring.gap) = ring.capacity := holds.writeAt_add_gap
  have inside : ring.gap ≤ data.length := Nat.le_of_lt beyond
  have headLength : (data.take ring.gap).length = ring.gap := List.length_take_of_le inside
  have tailLength : (data.drop ring.gap).length = data.length - ring.gap := List.length_drop
  have headSpan := holds.chunkSpan_gap
  have tailSpan : chunkSpan (data.length - ring.gap) =
      headerLength + roundUp (data.length - ring.gap) := rfl
  rw [needed] at free
  have head : ring.OwnsAll .writer ring.writeAt (chunkSpan (data.take ring.gap).length) := by
    rw [headLength, headSpan]
    exact writer_owns holds.laid.readAt_lt holds.behind (Nat.le_of_eq reach) (by omega)
      (Nat.le_refl _)
  have tail : ring.OwnsAll .writer 0 (chunkSpan (data.drop ring.gap).length) := by
    rw [tailLength]
    exact writer_owns holds.laid.readAt_lt holds.start_eq (by omega) (by omega) (by omega)
  rw [guardedPlace, if_pos inside, storeChunk_eq (by omega) head, Option.bind_eq_bind,
    Option.bind_some, storeChunk_eq (by omega) tail]
  rfl

/-! ## Guarded calls have results -/

/-- However data are laid out, all that is written belongs to the writer. -/
theorem guardedPlace_eq (holds : ring.Holds queue) (kind : ChunkKind)
    (short : data.length ≤ maxChunkLength)
    (free : ring.occupied + needed data.length (ring.layout data.length) ≤ ring.capacity) :
    ring.guardedPlace data kind (ring.layout data.length) =
      some (ring.place data kind (ring.layout data.length)) := by
  rcases ring.layout_cases_gap data.length with ⟨fits, layout⟩ | ⟨tight, layout⟩ |
    ⟨beyond, -, layout⟩
  all_goals rw [layout] at free ⊢
  · exact holds.guardedPlace_contiguous kind short fits free
  · exact holds.guardedPlace_padded kind short tight free
  · exact holds.guardedPlace_split kind short beyond free

/-- No push touches a byte that is not the writer's. -/
theorem guardedPush_eq (holds : ring.Holds queue) (data : List UInt8) (kind : ChunkKind) :
    ring.guardedPush data kind = some (ring.push data kind) := by
  have reach := holds.writeAt_add_le
  have gap : ring.capacity - ring.writeAt - headerLength = ring.gap := rfl
  have layout : layoutWithin ring.gap data.length = ring.layout data.length := rfl
  unfold guardedPush
  by_cases short : data.length ≤ maxChunkLength
  · rw [if_pos short, minus_of_le (by omega), Option.bind_eq_bind, Option.bind_some,
      minus_of_le (by omega), Option.bind_some, gap]
    dsimp only
    rw [layout]
    by_cases free : ring.occupied + needed data.length (ring.layout data.length) ≤ ring.capacity
    · rw [if_pos free, holds.guardedPlace_eq kind short free, Option.bind_eq_bind,
        Option.bind_some, push, if_pos ⟨short, free⟩]
    · rw [if_neg free, push, if_neg fun both => free both.2]
  · rw [if_neg short, push, if_neg fun both => short both.1]

/-- A pop has at most one header of padding to go over. -/
theorem guardedPop_eq (holds : ring.Holds queue) : ring.guardedPop 2 = some ring.pop := by
  have laid := holds.laid
  have length := laid.stored.lengthAt_eq
  cases waiting : queue.pending with
  | nil =>
    rw [waiting] at laid
    exact guardedPop_of_last laid.stored laid.occupied_of_nil
  | cons chunk later =>
    rw [waiting] at laid
    obtain ⟨more, behind⟩ := laid.next
    rw [← length] at behind
    cases behind with
    | chunk next =>
      exact guardedPop_of_more laid.stored more next.stored next.span_le_occupied nofun
    | padded atEnd further padding next =>
      refine guardedPop_of_more laid.stored more padding (Nat.le_of_lt further) fun _ => ?_
      have released : ring.release.release =
          { ring.release with readAt := 0, occupied := ring.release.occupied - headerLength } :=
        release_padding atEnd padding
      have stored : Stored ring.bytes ring.release.release.readAt (some chunk.1) chunk.2 := by
        rw [released]
        exact next.stored
      have held : chunkSpan chunk.2.length ≤ ring.release.release.occupied := by
        rw [released]
        exact next.span_le_occupied
      exact guardedPop_of_more padding further stored held nofun

/-- No call touches a byte that is not its own, and no call underflows. -/
theorem guarded_eq (holds : ring.Holds queue) (call : RingCall) :
    ring.guarded call = some (ring.perform call) := by
  cases call with
  | push data kind => rw [guarded, holds.guardedPush_eq]; rfl
  | pop => rw [guarded, holds.guardedPop_eq]; rfl
  | current => rw [guarded, guardedCurrent_eq holds.laid.stored holds.laid.span_le_occupied]; rfl
  | takeChunk =>
    have after := holds.pop_eq.1.laid
    have current := guardedCurrent_eq after.stored after.span_le_occupied
    rw [guarded, holds.guardedPop_eq, Ring.perform, takeChunk]
    revert current
    generalize ring.pop = popped
    obtain ⟨next, kind?⟩ := popped
    intro current
    dsimp only at current
    cases kind? with
    | none => rfl
    | some kind =>
      simp only [Option.bind_eq_bind, Option.bind_some]
      rw [current]
      rfl

end Holds

/-- In every run of a ring the positions and the number of occupied bytes are within their bounds,
the headers are tiles of the occupied bytes, and each call uses only bytes that are its own. -/
theorem safe_of_run (capacity : Nat) (even : capacity % 2 = 0) (large : 4 ≤ capacity)
    (calls : List RingCall) :
    let ring := ((empty capacity).run calls).1
    ring.capacity = capacity ∧ ring.Bounded ∧ (∃ waiting, ring.Tiling waiting) ∧
      ∀ call, ring.guarded call = some (ring.perform call) := by
  intro ring
  obtain ⟨queue, -, holds⟩ : ∃ queue, _ ∧ ring.Holds queue :=
    (holds_empty even large).run calls
  have size : ring.capacity = capacity := by
    rw [capacity_run, Ring.capacity, empty, Array.size_replicate]
  exact ⟨size, holds.bounded, holds.exists_tiling, holds.guarded_eq⟩

/-- Calls behind which the next chunk waits at the start of a ring of sixteen bytes, and there is
padding in front of the end. -/
def paddedCalls : List RingCall :=
  [.push (List.replicate 10 7) .packet, .pop, .pop, .push [1, 2, 3] .packet]

/-- The next pop goes over the padding to the start of the ring. -/
theorem safe_of_run_paddedCalls :
    16 % 2 = 0 ∧ 4 ≤ 16 ∧
      let ring := ((empty 16).run paddedCalls).1
      ring.Bounded ∧ (∃ waiting, ring.Tiling waiting) ∧ ring.kindAt 14 = none ∧
        ∃ next, ring.guarded .pop = some (next, .popped (some .packet)) ∧ next.readAt = 0 := by
  obtain ⟨-, bounded, tiling, guarded⟩ := safe_of_run 16 (by decide) (by decide) paddedCalls
  refine ⟨by decide, by decide, bounded, tiling, by decide +kernel, _,
    (guarded .pop).trans (congrArg some (Prod.ext rfl ?_)), ?_⟩
  · decide +kernel
  · decide +kernel

end MidiTransport.Ble.Ring
