import MidiTransport.Proofs.Ble.RingLayout

/-!
# A ring is a queue of chunks

To its users a ring is a `ChunkQueue`: the current chunk and the chunks that wait. `Holds`
relates the two. Every call of a ring is a step of the queue with the same answer, so the
queue of a ring never depends on where in the ring the chunks lie (`Ring.run_refines`).
-/

namespace MidiTransport.Ble

/-- The current chunk and the chunks that wait, from the oldest on. -/
structure ChunkQueue where
  current : Option ChunkKind × List UInt8
  pending : List (ChunkKind × List UInt8)

namespace ChunkQueue

/-- No chunk waits, and the current chunk has neither a kind nor data. -/
def empty : ChunkQueue := ⟨(none, []), []⟩

/-- Make the oldest waiting chunk the current one. The answer is its kind. -/
def pop (queue : ChunkQueue) : ChunkQueue × Option ChunkKind :=
  match queue.pending with
  | [] => (empty, none)
  | (kind, data) :: later => (⟨(some kind, data), later⟩, some kind)

/-- Make the oldest waiting chunk the current one and answer with it. -/
def takeChunk (queue : ChunkQueue) : ChunkQueue × Option (ChunkKind × List UInt8) :=
  (queue.pop.1, queue.pending.head?)

variable {queue : ChunkQueue}

/-- A queue without waiting chunks has none to go to. -/
theorem pending_of_pop_none (popped : queue.pop.2 = none) :
    queue.pending = [] ∧ queue.pop.1 = empty := by
  unfold pop at popped ⊢
  cases waiting : queue.pending with
  | nil => exact ⟨rfl, rfl⟩
  | cons chunk later => simp [waiting] at popped

/-- A pop that finds something takes the chunk that has waited for longest. -/
theorem exists_of_pop_some {kind : ChunkKind} (popped : queue.pop.2 = some kind) :
    ∃ data later, queue.pending = (kind, data) :: later ∧
      queue.pop.1 = ⟨(some kind, data), later⟩ := by
  unfold pop at popped ⊢
  cases waiting : queue.pending with
  | nil => simp [waiting] at popped
  | cons chunk later =>
    obtain rfl : chunk.1 = kind := by simpa [waiting] using popped
    exact ⟨chunk.2, later, rfl, rfl⟩

/-- The chunks that data of one kind may wait in. -/
inductive Divides (kind : ChunkKind) (data : List UInt8) :
    List (ChunkKind × List UInt8) → Prop where
  | whole : Divides kind data [(kind, data)]
  | halved {head tail : List UInt8} (joined : head ++ tail = data) (nonempty : head ≠ [])
      (even : head.length % 2 = 0) (rest : tail ≠ []) :
      Divides kind data [(kind, head), (.continuation, tail)]

end ChunkQueue

/-- A call of a ring. -/
inductive RingCall where
  | push (data : List UInt8) (kind : ChunkKind)
  | pop
  | current
  | takeChunk

/-- The answer to a call of a ring. -/
inductive RingAnswer where
  | pushed (accepted : Bool)
  | popped (kind? : Option ChunkKind)
  | current (chunk : Option ChunkKind × List UInt8)
  | taken (chunk? : Option (ChunkKind × List UInt8))
  deriving DecidableEq

/-- A call takes a queue to another one with this answer. Whether data are accepted, and in
how many chunks, is left open. -/
inductive ChunkQueue.Step : ChunkQueue → RingCall → RingAnswer → ChunkQueue → Prop where
  | accept {queue : ChunkQueue} {data : List UInt8} {kind : ChunkKind}
      {chunks : List (ChunkKind × List UInt8)} (divides : Divides kind data chunks) :
      Step queue (.push data kind) (.pushed true)
        { queue with pending := queue.pending ++ chunks }
  | reject {queue : ChunkQueue} {data : List UInt8} {kind : ChunkKind} :
      Step queue (.push data kind) (.pushed false) queue
  | pop {queue : ChunkQueue} : Step queue .pop (.popped queue.pop.2) queue.pop.1
  | current {queue : ChunkQueue} : Step queue .current (.current queue.current) queue
  | takeChunk {queue : ChunkQueue} :
      Step queue .takeChunk (.taken queue.takeChunk.2) queue.takeChunk.1

/-- Calls take a queue to another one with these answers. -/
inductive ChunkQueue.Steps : ChunkQueue → List RingCall → List RingAnswer → ChunkQueue → Prop where
  | refl {queue : ChunkQueue} : Steps queue [] [] queue
  | step {queue next final : ChunkQueue} {call : RingCall} {answer : RingAnswer}
      {calls : List RingCall} {answers : List RingAnswer} (first : Step queue call answer next)
      (rest : Steps next calls answers final) :
      Steps queue (call :: calls) (answer :: answers) final

namespace Ring

variable {ring next : Ring} {queue : ChunkQueue} {data : List UInt8} {kind : ChunkKind}

/-- Carry out a call. -/
def perform (ring : Ring) : RingCall → Ring × RingAnswer
  | .push data kind => ((ring.push data kind).1, .pushed (ring.push data kind).2)
  | .pop => (ring.pop.1, .popped ring.pop.2)
  | .current => (ring, .current ring.current)
  | .takeChunk => (ring.takeChunk.1, .taken ring.takeChunk.2)

/-- Carry out calls one after the other. -/
def run (ring : Ring) : List RingCall → Ring × List RingAnswer
  | [] => (ring, [])
  | call :: later =>
    let (next, answer) := ring.perform call
    let (final, answers) := next.run later
    (final, answer :: answers)

/-- The ring without its current chunk. -/
def release (ring : Ring) : Ring :=
  { ring with
    readAt := (ring.readAt + chunkSpan (ring.lengthAt ring.readAt)) % ring.capacity
    occupied := ring.occupied - chunkSpan (ring.lengthAt ring.readAt) }

/-- Behind padding the ring goes on at its start. -/
theorem release_padding (atEnd : ring.readAt + headerLength = ring.capacity)
    (padding : Stored ring.bytes ring.readAt none []) :
    ring.release = { ring with readAt := 0, occupied := ring.occupied - headerLength } := by
  have around : (ring.readAt + chunkSpan 0) % ring.capacity = 0 := by
    rw [show chunkSpan 0 = headerLength from rfl, atEnd, Nat.mod_self]
  rw [release, padding.lengthAt_eq, List.length_nil, around]
  rfl

/-- A chunk goes in front of the end of the ring as far as it fits. -/
theorem layout_cases_gap (ring : Ring) (length : Nat) :
    (length ≤ ring.gap ∧ ring.layout length = .contiguous) ∨
      (ring.gap = 0 ∧ ring.layout length = .padded) ∨
      (ring.gap < length ∧ ring.gap ≠ 0 ∧ ring.layout length = .split ring.gap) := by
  unfold layout
  split
  · exact .inl ⟨‹_›, rfl⟩
  · split
    · exact .inr (.inl ⟨‹_›, rfl⟩)
    · exact .inr (.inr ⟨by omega, ‹_›, rfl⟩)

/-- The occupied bytes of a ring are the chunks of a queue, and the next chunk is written
behind them. -/
structure Holds (ring : Ring) (queue : ChunkQueue) : Prop where
  laid : Laid ring.bytes ring.readAt ring.occupied queue.current queue.pending
  behind : ring.writeAt = (ring.readAt + ring.occupied) % ring.capacity

theorem holds_empty {capacity : Nat} (even : capacity % 2 = 0) (large : 4 ≤ capacity) :
    (empty capacity).Holds .empty where
  laid := by
    have size : (empty capacity).bytes.size = capacity := by simp [empty]
    have zero : headerAt (empty capacity).bytes 0 = 0 := by
      simp [headerAt, empty, show 0 < capacity by omega, show 1 < capacity by omega]
    have room : headerLength ≤ (empty capacity).bytes.size := by
      rw [size, headerLength]
      omega
    have stored : Stored (empty capacity).bytes 0 none [] :=
      ⟨rfl, by decide, room, zero, by simp [slice]⟩
    exact ⟨size.symm ▸ even, size.symm ▸ large, stored, fun _ => rfl, ⟨0, rfl, .none⟩, room⟩
  behind := by
    have size : (empty capacity).capacity = capacity := by simp [Ring.capacity, empty]
    have inside : 0 + headerLength < capacity := by
      rw [headerLength]
      omega
    rw [size]
    exact (Nat.mod_eq_of_lt inside).symm

namespace Holds

/-- The ring reads the current chunk of the queue. -/
theorem current_eq (holds : ring.Holds queue) : ring.current = queue.current := by
  have stored := holds.laid.stored
  rw [current, stored.kindAt_eq, stored.lengthAt_eq, stored.content]

/-! ## Pushing -/

theorem size_place (ring : Ring) (data : List UInt8) (kind : ChunkKind) (layout : Layout) :
    (ring.place data kind layout).size = ring.capacity := by
  cases layout <;> simp [place, capacity]

theorem writeAt_even (holds : ring.Holds queue) : ring.writeAt % 2 = 0 := by
  rw [holds.behind]
  exact holds.laid.behind_even

/-- There is always room for a header in front of the end. -/
theorem writeAt_add_le (holds : ring.Holds queue) :
    ring.writeAt + headerLength ≤ ring.capacity := by
  have even := holds.laid.even
  have place := holds.writeAt_even
  have positive : 0 < ring.capacity := Nat.zero_lt_of_lt holds.laid.readAt_lt
  have inside : ring.writeAt < ring.capacity := holds.behind ▸ Nat.mod_lt _ positive
  simp only [capacity, headerLength] at *
  omega

/-- Writing behind the arc moves the next header on by as much. -/
theorem of_laid {bytes : Array UInt8} {amount : Nat} {pending : List (ChunkKind × List UInt8)}
    (holds : ring.Holds queue) (size : bytes.size = ring.capacity)
    (laid : Laid bytes ring.readAt (ring.occupied + amount) queue.current pending) :
    Holds { ring with
      bytes
      writeAt := (ring.writeAt + amount) % ring.capacity
      occupied := ring.occupied + amount } { queue with pending } where
  laid := laid
  behind := by
    show (ring.writeAt + amount) % ring.capacity =
      (ring.readAt + (ring.occupied + amount)) % bytes.size
    rw [size, holds.behind, Nat.mod_add_mod, Nat.add_assoc]

/-- Behind the next header there is the gap, and then the end of the memory. -/
theorem writeAt_add_gap (holds : ring.Holds queue) :
    ring.writeAt + (headerLength + ring.gap) = ring.bytes.size := by
  have reach := holds.writeAt_add_le
  simp only [Ring.gap, capacity] at *
  omega

/-- The next chunk comes right behind all others. -/
theorem writeAt_eq (holds : ring.Holds queue) :
    (ring.readAt + ring.occupied) % ring.bytes.size = ring.writeAt :=
  holds.behind.symm

theorem gap_even (holds : ring.Holds queue) : ring.gap % 2 = 0 := by
  have reach := holds.writeAt_add_gap
  have evenSize := holds.laid.even
  have evenPlace := holds.writeAt_even
  simp only [headerLength] at reach
  omega

/-- A chunk as long as the gap leaves nothing of it. -/
theorem chunkSpan_gap (holds : ring.Holds queue) :
    chunkSpan ring.gap = headerLength + ring.gap := by
  have even := holds.gap_even
  simp only [chunkSpan, roundUp]
  omega

/-- A chunk whose data fit in the gap ends within the memory. -/
theorem writeAt_add_span_le {length : Nat} (holds : ring.Holds queue) (fits : length ≤ ring.gap) :
    ring.writeAt + chunkSpan length ≤ ring.bytes.size := by
  have reach := holds.writeAt_add_gap
  have even := holds.gap_even
  simp only [chunkSpan, roundUp]
  omega

/-- Data that fit in front of the end of the memory. -/
theorem laid_contiguous (holds : ring.Holds queue) (kind : ChunkKind)
    (short : data.length ≤ maxChunkLength) (fits : data.length ≤ ring.gap)
    (free : ring.occupied + needed data.length .contiguous ≤ ring.capacity) :
    Laid (ring.place data kind .contiguous) ring.readAt
      (ring.occupied + needed data.length .contiguous) queue.current
      (queue.pending ++ [(kind, data)]) := by
  have room := holds.writeAt_add_span_le fits
  rw [place, ← holds.writeAt_eq]
  exact holds.laid.extend kind short (holds.writeAt_eq.symm ▸ room) free

/-- Data behind an empty chunk, where only a header fits in front of the end of the memory. -/
theorem laid_padded (holds : ring.Holds queue) (kind : ChunkKind)
    (short : data.length ≤ maxChunkLength) (tight : ring.gap = 0)
    (free : ring.occupied + needed data.length .padded ≤ ring.capacity) :
    Laid (ring.place data kind .padded) ring.readAt
      (ring.occupied + needed data.length .padded) queue.current
      (queue.pending ++ [(kind, data)]) := by
  have reach := holds.writeAt_add_gap
  have same : needed data.length .padded = headerLength + chunkSpan data.length := by
    simp only [needed, chunkSpan]
    omega
  rw [same] at free ⊢
  rw [place, ← holds.writeAt_eq]
  refine holds.laid.extend_padded kind short ?_ free
  rw [holds.writeAt_eq, ← reach, tight, Nat.add_zero]

/-- Data of which only some fit in front of the end of the memory. -/
theorem laid_split (holds : ring.Holds queue) (kind : ChunkKind)
    (short : data.length ≤ maxChunkLength) (beyond : ring.gap < data.length)
    (free : ring.occupied + needed data.length (.split ring.gap) ≤ ring.capacity) :
    Laid (ring.place data kind (.split ring.gap)) ring.readAt
      (ring.occupied + needed data.length (.split ring.gap)) queue.current
      (queue.pending ++ [(kind, data.take ring.gap), (.continuation, data.drop ring.gap)]) := by
  have reach := holds.writeAt_add_gap
  have headLength : (data.take ring.gap).length = ring.gap := by
    rw [List.length_take]
    omega
  have tailLength : (data.drop ring.gap).length = data.length - ring.gap := List.length_drop
  have headSpan := holds.chunkSpan_gap
  have same : needed data.length (.split ring.gap) =
      chunkSpan (data.take ring.gap).length + chunkSpan (data.drop ring.gap).length := by
    rw [headLength, tailLength, headSpan]
    simp only [needed, chunkSpan]
    omega
  rw [same] at free ⊢
  rw [place, ← holds.writeAt_eq]
  refine holds.laid.extend_split kind (by omega) (by omega) ?_ free
  rw [holds.writeAt_eq, headLength, headSpan, reach]

/-- Data that do not fit in the gap are divided there, at an even place with data on both sides. -/
theorem divides_gap (holds : ring.Holds queue) (kind : ChunkKind)
    (beyond : ring.gap < data.length) (positive : ring.gap ≠ 0) :
    ChunkQueue.Divides kind data
      [(kind, data.take ring.gap), (.continuation, data.drop ring.gap)] := by
  have headLength : (data.take ring.gap).length = ring.gap := by
    rw [List.length_take]
    omega
  have tailLength : (data.drop ring.gap).length = data.length - ring.gap := List.length_drop
  refine .halved (List.take_append_drop _ _) ?_ (headLength.symm ▸ holds.gap_even) ?_
  · intro nothing
    rw [nothing] at headLength
    exact positive headLength.symm
  · intro nothing
    rw [nothing, List.length_nil] at tailLength
    omega

/-- The data are in the ring behind all others, in one chunk or in two. -/
theorem laid_place (holds : ring.Holds queue) (kind : ChunkKind)
    (short : data.length ≤ maxChunkLength)
    (free : ring.occupied + needed data.length (ring.layout data.length) ≤ ring.capacity) :
    ∃ chunks, ChunkQueue.Divides kind data chunks ∧
      Laid (ring.place data kind (ring.layout data.length)) ring.readAt
        (ring.occupied + needed data.length (ring.layout data.length)) queue.current
        (queue.pending ++ chunks) := by
  rcases ring.layout_cases_gap data.length with ⟨fits, layout⟩ | ⟨tight, layout⟩ |
    ⟨beyond, tight, layout⟩
  all_goals rw [layout] at free ⊢
  · exact ⟨[(kind, data)], .whole, holds.laid_contiguous kind short fits free⟩
  · exact ⟨[(kind, data)], .whole, holds.laid_padded kind short tight free⟩
  · exact ⟨_, holds.divides_gap kind beyond tight, holds.laid_split kind short beyond free⟩

/-- An accepted push adds its data to the queue, in one chunk or in two. -/
theorem push_accepted (holds : ring.Holds queue) (accepted : ring.push data kind = (next, true)) :
    ∃ chunks, ChunkQueue.Divides kind data chunks ∧
      next.Holds { queue with pending := queue.pending ++ chunks } := by
  simp only [push] at accepted
  split at accepted
  · rename_i room
    obtain ⟨rfl, -⟩ := Prod.mk.inj accepted
    obtain ⟨chunks, divides, laid⟩ := holds.laid_place kind room.1 room.2
    exact ⟨chunks, divides, holds.of_laid (size_place ring data kind _) laid⟩
  · cases accepted

/-- A refused push changes nothing. -/
theorem push_rejected (rejected : ring.push data kind = (next, false)) : next = ring := by
  simp only [push] at rejected
  split at rejected
  · cases rejected
  · exact (Prod.mk.inj rejected).1.symm

/-! ## Popping -/

/-- With more behind it the current chunk is released, and padding after it as well. -/
theorem pop_of_more (more : chunkSpan (ring.lengthAt ring.readAt) < ring.occupied) :
    ring.pop = match ring.release.kindAt ring.release.readAt with
      | some kind => (ring.release, some kind)
      | none => ring.release.pop := by
  have further : headerLength + roundUp (ring.lengthAt ring.readAt) < ring.occupied := more
  have advanced : ({ ring with
      readAt := (ring.readAt + headerLength + roundUp (ring.lengthAt ring.readAt)) % ring.capacity
      occupied := ring.occupied - (headerLength + roundUp (ring.lengthAt ring.readAt)) } : Ring) =
        ring.release := by
    simp only [release, chunkSpan, Nat.add_assoc]
  rw [pop, dif_pos further]
  exact congrArg
    (fun next : Ring => match next.kindAt next.readAt with
      | some kind => (next, some kind)
      | none => next.pop)
    advanced

/-- The last chunk becomes an empty one without a kind, at its own end. -/
theorem pop_of_last (last : ring.occupied = chunkSpan (ring.lengthAt ring.readAt)) :
    ring.pop = ({ ring with
      bytes := writeChunk ring.bytes (ring.readAt + roundUp (ring.lengthAt ring.readAt)) [] none
      readAt := ring.readAt + roundUp (ring.lengthAt ring.readAt)
      occupied := headerLength }, none) := by
  have less : ¬ headerLength + roundUp (ring.lengthAt ring.readAt) < ring.occupied := by
    rw [last]
    exact Nat.lt_irrefl _
  rw [pop, dif_neg less]
  simp [last, chunkSpan]

/-- The next header to be written stays where it is. -/
theorem behind_release (behind : ring.writeAt = (ring.readAt + ring.occupied) % ring.capacity)
    (more : chunkSpan (ring.lengthAt ring.readAt) ≤ ring.occupied) :
    ring.release.writeAt =
      (ring.release.readAt + ring.release.occupied) % ring.release.capacity := by
  have whole : ring.readAt + ring.occupied = ring.readAt + chunkSpan (ring.lengthAt ring.readAt) +
      (ring.occupied - chunkSpan (ring.lengthAt ring.readAt)) := by omega
  have same : ring.release.capacity = ring.capacity := rfl
  rw [same, release, Nat.mod_add_mod, ← whole]
  exact behind

/-- Without waiting chunks the current chunk is released, and a header keeps its place. -/
theorem pop_nil (holds : ring.Holds queue) (nothing : queue.pending = []) :
    ring.pop.1.Holds .empty ∧ ring.pop.2 = none := by
  have laid := holds.laid
  rw [nothing] at laid
  have length := laid.stored.lengthAt_eq
  have occupied := laid.occupied_of_nil
  rw [pop_of_last (by rw [length, occupied])]
  refine ⟨⟨?_, ?_⟩, rfl⟩
  · rw [length]
    exact laid.vacate
  · have behind := holds.behind
    rw [occupied] at behind
    simp only [length, capacity, size_writeChunk]
    rw [behind, chunkSpan, Nat.add_assoc, Nat.add_comm headerLength, capacity]

/-- The chunk that has waited for longest becomes the current one, over padding. -/
theorem pop_cons {chunk : ChunkKind × List UInt8} {later : List (ChunkKind × List UInt8)}
    (holds : ring.Holds queue) (first : queue.pending = chunk :: later) :
    ring.pop.1.Holds ⟨(some chunk.1, chunk.2), later⟩ ∧ ring.pop.2 = some chunk.1 := by
  have laid := holds.laid
  rw [first] at laid
  obtain ⟨more, behind⟩ := laid.next
  have length := laid.stored.lengthAt_eq
  rw [← length] at more behind
  have place := behind_release holds.behind (Nat.le_of_lt more)
  rw [pop_of_more more]
  cases behind with
  | chunk next =>
    have kind : ring.release.kindAt ring.release.readAt = some chunk.1 := next.stored.kindAt_eq
    rw [kind]
    exact ⟨⟨next, place⟩, rfl⟩
  | padded atEnd further padding next =>
    -- Here the pop finds padding and goes on to the chunk behind it, at the start of the memory.
    have kind : ring.release.kindAt ring.release.readAt = none := padding.kindAt_eq
    have empty : ring.release.lengthAt ring.release.readAt = 0 := padding.lengthAt_eq
    have more : chunkSpan (ring.release.lengthAt ring.release.readAt) < ring.release.occupied := by
      rw [empty]
      exact further
    have released : ring.release.release =
        { ring.release with readAt := 0, occupied := ring.release.occupied - headerLength } :=
      release_padding atEnd padding
    have found : ring.release.release.kindAt ring.release.release.readAt = some chunk.1 := by
      rw [released]
      exact next.stored.kindAt_eq
    have again := behind_release place (Nat.le_of_lt more)
    rw [kind]
    dsimp only
    rw [pop_of_more more, found]
    rw [released] at again ⊢
    exact ⟨⟨next, again⟩, rfl⟩

/-- The ring pops what the queue pops. -/
theorem pop_eq (holds : ring.Holds queue) :
    ring.pop.1.Holds queue.pop.1 ∧ ring.pop.2 = queue.pop.2 := by
  cases waiting : queue.pending with
  | nil =>
    rw [ChunkQueue.pop, waiting]
    exact holds.pop_nil waiting
  | cons chunk later =>
    rw [ChunkQueue.pop, waiting]
    exact holds.pop_cons waiting

/-- The ring takes what the queue takes. -/
theorem takeChunk_eq (holds : ring.Holds queue) :
    ring.takeChunk.1.Holds queue.takeChunk.1 ∧ ring.takeChunk.2 = queue.takeChunk.2 := by
  obtain ⟨after, kind⟩ := holds.pop_eq
  have current := after.current_eq
  revert after kind current
  unfold takeChunk ChunkQueue.takeChunk ChunkQueue.pop
  generalize ring.pop = popped
  obtain ⟨next, kind?⟩ := popped
  cases queue.pending with
  | nil =>
    rintro after rfl -
    exact ⟨after, rfl⟩
  | cons chunk later =>
    rintro after rfl current
    refine ⟨after, ?_⟩
    dsimp only at current ⊢
    rw [current]
    rfl

/-- Taking all chunks out of a ring yields those that wait, in order. -/
theorem takeAll_eq (holds : ring.Holds queue) : ring.takeAll.1 = queue.pending := by
  obtain ⟨current, pending⟩ := queue
  induction pending generalizing ring current with
  | nil =>
    have last := (holds.pop_nil rfl).2
    unfold takeAll
    split
    · rfl
    · rename_i kind found
      exact absurd (found.symm.trans last) (by simp)
  | cons chunk later ih =>
    obtain ⟨after, found⟩ := holds.pop_cons rfl
    unfold takeAll
    split
    · rename_i none
      exact absurd (found.symm.trans none) (by simp)
    · rename_i kind other
      obtain rfl : chunk.1 = kind := Option.some.inj (found.symm.trans other)
      rw [after.current_eq]
      dsimp only
      rw [ih _ after]

/-! ## Runs -/

/-- A call of the ring is a step of its queue. -/
theorem perform (holds : ring.Holds queue) (call : RingCall) :
    ∃ next, queue.Step call (ring.perform call).2 next ∧ (ring.perform call).1.Holds next := by
  cases call with
  | push data kind =>
    generalize outcome : ring.push data kind = pushed
    obtain ⟨next, accepted⟩ := pushed
    simp only [Ring.perform, outcome]
    cases accepted with
    | true =>
      obtain ⟨chunks, divides, after⟩ := holds.push_accepted outcome
      exact ⟨_, .accept divides, after⟩
    | false =>
      obtain rfl := push_rejected outcome
      exact ⟨queue, .reject, holds⟩
  | pop =>
    obtain ⟨after, kind⟩ := holds.pop_eq
    refine ⟨queue.pop.1, ?_, after⟩
    simp only [Ring.perform, kind]
    exact .pop
  | current =>
    refine ⟨queue, ?_, holds⟩
    simp only [Ring.perform, holds.current_eq]
    exact .current
  | takeChunk =>
    obtain ⟨after, chunk⟩ := holds.takeChunk_eq
    refine ⟨queue.takeChunk.1, ?_, after⟩
    simp only [Ring.perform, chunk]
    exact .takeChunk

/-- The calls on a ring are steps of the queue that it holds. -/
theorem run (holds : ring.Holds queue) (calls : List RingCall) :
    ∃ final, queue.Steps calls (ring.run calls).2 final ∧ (ring.run calls).1.Holds final := by
  induction calls generalizing ring queue with
  | nil => exact ⟨queue, .refl, holds⟩
  | cons call later ih =>
    obtain ⟨next, first, after⟩ := holds.perform call
    obtain ⟨final, rest, done⟩ := ih after
    exact ⟨final, .step first rest, done⟩

end Holds

/-- Every run of a ring is a run of a queue with the same answers, and behind it the ring has
the current chunk and the waiting chunks of the queue. -/
theorem run_refines (capacity : Nat) (even : capacity % 2 = 0) (large : 4 ≤ capacity)
    (calls : List RingCall) :
    ∃ queue, ChunkQueue.Steps .empty calls ((empty capacity).run calls).2 queue ∧
      ((empty capacity).run calls).1.current = queue.current ∧
      ((empty capacity).run calls).1.takeAll.1 = queue.pending := by
  obtain ⟨queue, steps, holds⟩ := (holds_empty even large).run calls
  exact ⟨queue, steps, holds.current_eq, holds.takeAll_eq⟩

/-- Calls that make the second chunk go around the end of a ring of sixteen bytes. -/
def wrappingCalls : List RingCall :=
  [.push [1, 2, 3, 4, 5] .packet, .pop, .current, .pop, .push [6, 7, 8, 9, 10] .packet,
    .push [11, 12, 13] .packet, .takeChunk, .takeChunk]

/-- The answers to these calls. -/
def wrappingAnswers : List RingAnswer :=
  [.pushed true, .popped (some .packet), .current (some .packet, [1, 2, 3, 4, 5]), .popped none,
    .pushed true, .pushed false, .taken (some (.packet, [6, 7, 8, 9])),
    .taken (some (.continuation, [10]))]

/-- The queue is read around the end of the ring, and its last chunk is the second part of a push.
-/
theorem run_refines_wrappingCalls :
    16 % 2 = 0 ∧ 4 ≤ 16 ∧ ∃ queue, ChunkQueue.Steps .empty wrappingCalls wrappingAnswers queue ∧
      queue.current = (some .continuation, [10]) := by
  obtain ⟨queue, steps, current, -⟩ := run_refines 16 (by decide) (by decide) wrappingCalls
  refine ⟨by decide, by decide, queue, ?_, current.symm.trans (by decide +kernel)⟩
  have answers : ((empty 16).run wrappingCalls).2 = wrappingAnswers := by decide +kernel
  rwa [answers] at steps

end Ring

end MidiTransport.Ble
