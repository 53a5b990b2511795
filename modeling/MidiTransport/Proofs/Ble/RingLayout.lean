import MidiTransport.Proofs.Ble.RingMemory

/-!
# How the chunks of a ring lie behind one another

The occupied bytes of a ring are an arc that starts with the current chunk and goes on with
the chunks that wait, at most one of which has padding in front (`Waiting`). `Laid` is what
holds between any two calls. A chunk is written right behind the arc, which makes the arc
longer (`Laid.extend`, `Laid.extend_padded`); a split chunk is two such steps.
-/

namespace MidiTransport.Ble.Ring

variable {bytes others : Array UInt8} {start position amount readAt occupied : Nat}
  {kind : ChunkKind} {data : List UInt8} {current : Option ChunkKind × List UInt8}
  {chunks pending : List (ChunkKind × List UInt8)}

/-! ## Arcs -/

/-- The bytes of an arc, which may go around the end of the ring, are the same. -/
structure Keeps (bytes others : Array UInt8) (start amount : Nat) : Prop where
  size : others.size = bytes.size
  same : ∀ index < amount,
    others.getD ((start + index) % bytes.size) 0 = bytes.getD ((start + index) % bytes.size) 0

/-- Two changes that leave an arc alone do so together. -/
theorem Keeps.trans {final : Array UInt8} {more : Nat} (first : Keeps bytes others start amount)
    (second : Keeps others final start more) (inside : amount ≤ more) :
    Keeps bytes final start amount where
  size := second.size.trans first.size
  same := by
    intro index bound
    have late := second.same index (by omega)
    rw [first.size] at late
    exact late.trans (first.same index bound)

/-- Two places of a ring less than a whole turn apart are different. -/
theorem mod_ne_mod {size near far : Nat} (before : near < far) (turn : far < near + size) :
    near % size ≠ far % size := by
  intro same
  have zero := Nat.sub_mod_eq_zero_of_mod_eq same.symm
  rw [Nat.mod_eq_of_lt (by omega)] at zero
  omega

/-- A chunk that is written behind an arc leaves it alone. -/
theorem keeps_writeChunk {offset : Nat} (kind : Option ChunkKind)
    (place : position = (start + offset) % bytes.size) (behind : amount ≤ offset)
    (turn : offset + chunkSpan data.length ≤ bytes.size)
    (within : position + chunkSpan data.length ≤ bytes.size) :
    Keeps bytes (writeChunk bytes position data kind) start amount where
  size := by simp
  same := by
    intro index bound
    refine getD_writeChunk_of_outside ?_
    have beyond (more : Nat) (inside : more < chunkSpan data.length) :
        (start + index) % bytes.size ≠ position + more := by
      have reached : (start + (offset + more)) % bytes.size = position + more := by
        rw [← Nat.add_assoc, ← Nat.mod_add_mod, ← place, Nat.mod_eq_of_lt (by omega)]
      rw [← reached]
      exact mod_ne_mod (by omega) (by omega)
    have apart := beyond ((start + index) % bytes.size - position)
    omega

/-! ## Waiting chunks -/

/-- These chunks wait behind one another from a position on, in so many bytes. If only a
header fits in front of the end of the ring, it is padding and a chunk follows at the start
of the ring. -/
inductive Waiting (bytes : Array UInt8) : Nat → List (ChunkKind × List UInt8) → Nat → Prop where
  | none {position : Nat} : Waiting bytes position [] 0
  | chunk {position amount : Nat} {kind : ChunkKind} {data : List UInt8}
      {later : List (ChunkKind × List UInt8)}
      (stored : Stored bytes position (some kind) data)
      (rest : Waiting bytes ((position + chunkSpan data.length) % bytes.size) later amount) :
      Waiting bytes position ((kind, data) :: later) (chunkSpan data.length + amount)
  | padded {position amount : Nat} {kind : ChunkKind} {data : List UInt8}
      {later : List (ChunkKind × List UInt8)} (atEnd : position + headerLength = bytes.size)
      (padding : Stored bytes position .none [])
      (stored : Stored bytes 0 (some kind) data)
      (rest : Waiting bytes (chunkSpan data.length % bytes.size) later amount) :
      Waiting bytes position ((kind, data) :: later)
        (headerLength + chunkSpan data.length + amount)

namespace Waiting

theorem amount_even (waiting : Waiting bytes position chunks amount) : amount % 2 = 0 := by
  induction waiting with
  | none => rfl
  | @chunk position amount kind data later stored rest ih =>
    have span := chunkSpan_even data.length
    omega
  | @padded position amount kind data later atEnd padding stored rest ih =>
    have span := chunkSpan_even data.length
    simp only [headerLength]
    omega

/-- A chunk within an arc that is left alone is left alone. -/
theorem stored_of_keeps {place offset : Nat} {kind : Option ChunkKind}
    (keeps : Keeps bytes others start amount) (stored : Stored bytes place kind data)
    (here : place = (start + offset) % bytes.size)
    (inside : offset + chunkSpan data.length ≤ amount) : Stored others place kind data := by
  refine stored.of_same keeps.size ?_
  intro index bound
  have within := stored.within
  have same := keeps.same (offset + index) (by omega)
  rwa [← Nat.add_assoc, ← Nat.mod_add_mod, ← here, Nat.mod_eq_of_lt (by omega)] at same

/-- The part of an arc from an offset on. -/
theorem keeps_drop {offset rest : Nat} (keeps : Keeps bytes others start amount)
    (inside : offset + rest ≤ amount) :
    Keeps bytes others ((start + offset) % bytes.size) rest where
  size := keeps.size
  same := by
    intro index bound
    have same := keeps.same (offset + index) (by omega)
    rwa [Nat.mod_add_mod, Nat.add_assoc]

/-- Chunks go on to wait while their bytes are left alone. -/
theorem of_keeps (waiting : Waiting bytes position chunks amount)
    (keeps : Keeps bytes others position amount) : Waiting others position chunks amount := by
  induction waiting with
  | none => exact .none
  | @chunk position amount kind data later stored rest ih =>
    have positive := chunkSpan_pos data.length
    have within := stored.within
    have here : position = (position + 0) % bytes.size := by
      rw [Nat.add_zero, Nat.mod_eq_of_lt (by omega)]
    refine .chunk (stored_of_keeps keeps stored here (by omega)) ?_
    rw [keeps.size]
    exact ih (keeps_drop keeps (Nat.le_refl _))
  | @padded position amount kind data later atEnd padding stored rest ih =>
    have around : (position + headerLength) % bytes.size = 0 := by
      rw [atEnd, Nat.mod_self]
    have here : position = (position + 0) % bytes.size := by
      rw [Nat.add_zero, Nat.mod_eq_of_lt]
      simp only [headerLength] at atEnd
      omega
    have short : 0 + chunkSpan 0 ≤ headerLength + chunkSpan data.length + amount := by
      simp only [chunkSpan, headerLength, roundUp]
      omega
    refine .padded (keeps.size ▸ atEnd) (stored_of_keeps keeps padding here short)
      (stored_of_keeps keeps stored around.symm (Nat.le_add_right _ _)) ?_
    have after := keeps_drop keeps (Nat.le_refl (headerLength + chunkSpan data.length + amount))
    rw [← Nat.add_assoc, ← Nat.mod_add_mod, around, Nat.zero_add] at after
    rw [keeps.size]
    exact ih after

/-- More chunks wait behind these. -/
theorem append {more : Nat} {further : List (ChunkKind × List UInt8)}
    (waiting : Waiting bytes position chunks amount) (inside : position < bytes.size)
    (behind : Waiting bytes ((position + amount) % bytes.size) further more) :
    Waiting bytes position (chunks ++ further) (amount + more) := by
  have positive : 0 < bytes.size := by omega
  induction waiting with
  | none => rwa [Nat.add_zero, Nat.mod_eq_of_lt inside, ← Nat.zero_add more] at behind
  | @chunk position amount kind data later stored rest ih =>
    rw [Nat.add_assoc]
    refine .chunk stored (ih (Nat.mod_lt _ positive) ?_)
    rwa [Nat.mod_add_mod, Nat.add_assoc]
  | @padded position amount kind data later atEnd padding stored rest ih =>
    rw [Nat.add_assoc]
    refine .padded atEnd padding stored (ih (Nat.mod_lt _ positive) ?_)
    rw [Nat.add_assoc, ← Nat.add_assoc, atEnd, Nat.add_mod_left] at behind
    rwa [Nat.mod_add_mod]

end Waiting

/-! ## The layout of a ring -/

/-- The current chunk and the chunks that wait behind it, in the arc of occupied bytes. A
header that only keeps the place of the current chunk has no data. -/
structure Laid (bytes : Array UInt8) (readAt occupied : Nat)
    (current : Option ChunkKind × List UInt8) (pending : List (ChunkKind × List UInt8)) :
    Prop where
  even : bytes.size % 2 = 0
  large : 4 ≤ bytes.size
  stored : Stored bytes readAt current.1 current.2
  placeholder : current.1 = none → current.2 = []
  waiting : ∃ amount, occupied = chunkSpan current.2.length + amount ∧
    Waiting bytes ((readAt + chunkSpan current.2.length) % bytes.size) pending amount
  bounded : occupied ≤ bytes.size

namespace Laid

theorem occupied_even (laid : Laid bytes readAt occupied current pending) :
    occupied % 2 = 0 := by
  obtain ⟨amount, rfl, waiting⟩ := laid.waiting
  have span := chunkSpan_even current.2.length
  have rest := waiting.amount_even
  omega

/-- Chunks start at even positions. -/
theorem behind_even (laid : Laid bytes readAt occupied current pending) :
    (readAt + occupied) % bytes.size % 2 = 0 := by
  have size := laid.even
  have place := laid.stored.even
  have amount := laid.occupied_even
  rw [Nat.mod_mod_of_dvd _ (Nat.dvd_of_mod_eq_zero size)]
  omega

theorem readAt_lt (laid : Laid bytes readAt occupied current pending) : readAt < bytes.size := by
  have within := laid.stored.within
  have positive := chunkSpan_pos current.2.length
  omega

theorem span_le_occupied (laid : Laid bytes readAt occupied current pending) :
    chunkSpan current.2.length ≤ occupied := by
  obtain ⟨amount, rfl, -⟩ := laid.waiting
  exact Nat.le_add_right _ _

/-- The arc goes on with more chunks. -/
theorem append {more : Nat} {further : List (ChunkKind × List UInt8)}
    (laid : Laid bytes readAt occupied current pending)
    (keeps : Keeps bytes others readAt occupied)
    (behind : Waiting others ((readAt + occupied) % bytes.size) further more)
    (bounded : occupied + more ≤ bytes.size) :
    Laid others readAt (occupied + more) current (pending ++ further) := by
  have here : readAt = (readAt + 0) % bytes.size := by
    rw [Nat.add_zero, Nat.mod_eq_of_lt laid.readAt_lt]
  have positive : 0 < bytes.size := Nat.zero_lt_of_lt laid.readAt_lt
  obtain ⟨amount, rfl, waiting⟩ := laid.waiting
  have kept := waiting.of_keeps (Waiting.keeps_drop keeps (Nat.le_refl _))
  refine ⟨keeps.size ▸ laid.even, keeps.size ▸ laid.large,
    Waiting.stored_of_keeps keeps laid.stored here (by omega), laid.placeholder,
    ⟨amount + more, Nat.add_assoc _ _ _, ?_⟩, keeps.size ▸ bounded⟩
  rw [keeps.size]
  refine kept.append (keeps.size.symm ▸ Nat.mod_lt _ positive) ?_
  rwa [keeps.size, Nat.mod_add_mod, Nat.add_assoc]

/-- A chunk has been written behind all others, in front of the end of the ring. -/
theorem extend (laid : Laid bytes readAt occupied current pending) (kind : ChunkKind)
    (short : data.length ≤ maxChunkLength)
    (room : (readAt + occupied) % bytes.size + chunkSpan data.length ≤ bytes.size)
    (free : occupied + chunkSpan data.length ≤ bytes.size) :
    Laid (writeChunk bytes ((readAt + occupied) % bytes.size) data (some kind)) readAt
      (occupied + chunkSpan data.length) current (pending ++ [(kind, data)]) :=
  laid.append (keeps_writeChunk (some kind) rfl (Nat.le_refl _) free room)
    (.chunk (stored_writeChunk (some kind) laid.behind_even short room) .none) free

/-- A chunk has been written to the start of the ring, behind padding. -/
theorem extend_padded (laid : Laid bytes readAt occupied current pending) (kind : ChunkKind)
    (short : data.length ≤ maxChunkLength)
    (atEnd : (readAt + occupied) % bytes.size + headerLength = bytes.size)
    (free : occupied + (headerLength + chunkSpan data.length) ≤ bytes.size) :
    Laid (writeChunk (writeChunk bytes ((readAt + occupied) % bytes.size) [] none) 0 data
        (some kind)) readAt
      (occupied + (headerLength + chunkSpan data.length)) current
      (pending ++ [(kind, data)]) := by
  have two : chunkSpan ([] : List UInt8).length = headerLength := rfl
  have start : 0 = (readAt + (occupied + headerLength)) % bytes.size := by
    rw [← Nat.add_assoc, ← Nat.mod_add_mod, atEnd, Nat.mod_self]
  have early : Keeps bytes (writeChunk bytes ((readAt + occupied) % bytes.size) [] none) readAt
      occupied :=
    keeps_writeChunk none rfl (Nat.le_refl _) (by omega) (by omega)
  have padding : Stored (writeChunk bytes ((readAt + occupied) % bytes.size) [] none)
      ((readAt + occupied) % bytes.size) none [] :=
    stored_writeChunk none laid.behind_even (by decide) (by omega)
  revert early padding
  generalize writeChunk bytes ((readAt + occupied) % bytes.size) [] none = padded
  intro early padding
  have size := early.size
  have late : Keeps padded (writeChunk padded 0 data (some kind)) readAt
      (occupied + headerLength) :=
    keeps_writeChunk (some kind) (size.symm ▸ start) (Nat.le_refl _) (by omega) (by omega)
  refine laid.append (early.trans late (Nat.le_add_right _ _)) ?_ free
  refine .padded (by simpa [size] using atEnd) ?_
    (stored_writeChunk (some kind) rfl short (by omega)) .none
  exact Waiting.stored_of_keeps late padding (by rw [size]) (Nat.le_refl _)

/-- A chunk has been written up to the end of the ring, and its continuation to the start. -/
theorem extend_split {head tail : List UInt8}
    (laid : Laid bytes readAt occupied current pending) (kind : ChunkKind)
    (shortHead : head.length ≤ maxChunkLength) (shortTail : tail.length ≤ maxChunkLength)
    (atEnd : (readAt + occupied) % bytes.size + chunkSpan head.length = bytes.size)
    (free : occupied + (chunkSpan head.length + chunkSpan tail.length) ≤ bytes.size) :
    Laid (writeChunk (writeChunk bytes ((readAt + occupied) % bytes.size) head (some kind)) 0 tail
        (some .continuation)) readAt
      (occupied + (chunkSpan head.length + chunkSpan tail.length)) current
      (pending ++ [(kind, head), (.continuation, tail)]) := by
  have first := laid.extend kind shortHead (Nat.le_of_eq atEnd) (by omega)
  have around : (readAt + (occupied + chunkSpan head.length)) % bytes.size = 0 := by
    rw [← Nat.add_assoc, ← Nat.mod_add_mod, atEnd, Nat.mod_self]
  have size := size_writeChunk bytes ((readAt + occupied) % bytes.size) head (some kind)
  have second := first.extend .continuation shortTail (by rw [size, around]; omega)
    (by rw [size]; omega)
  rw [size, around] at second
  simpa [Nat.add_assoc] using second

/-- Behind the current chunk there is either the chunk that has waited for longest or the
padding in front of it. -/
inductive Next (bytes : Array UInt8) (position occupied : Nat) (chunk : ChunkKind × List UInt8)
    (later : List (ChunkKind × List UInt8)) : Prop where
  | chunk (laid : Laid bytes position occupied (some chunk.1, chunk.2) later)
  | padded (atEnd : position + headerLength = bytes.size) (more : headerLength < occupied)
      (padding : Stored bytes position none [])
      (laid : Laid bytes 0 (occupied - headerLength) (some chunk.1, chunk.2) later)

/-- The chunk that has waited for longest is found behind the current one. -/
theorem next {chunk : ChunkKind × List UInt8} {later : List (ChunkKind × List UInt8)}
    (laid : Laid bytes readAt occupied current (chunk :: later)) :
    chunkSpan current.2.length < occupied ∧
      Next bytes ((readAt + chunkSpan current.2.length) % bytes.size)
        (occupied - chunkSpan current.2.length) chunk later := by
  obtain ⟨amount, rfl, waiting⟩ := laid.waiting
  have bounded := laid.bounded
  rw [Nat.add_sub_cancel_left]
  cases waiting with
  | @chunk _ amount kind data _ stored rest =>
    have positive := chunkSpan_pos data.length
    refine ⟨by omega, .chunk ⟨laid.even, laid.large, stored, by simp, ⟨amount, rfl, rest⟩, ?_⟩⟩
    omega
  | @padded _ amount kind data _ atEnd padding stored rest =>
    have positive := chunkSpan_pos data.length
    have after : headerLength + chunkSpan data.length + amount - headerLength =
        chunkSpan data.length + amount := by omega
    refine ⟨by omega, .padded atEnd (by omega) padding ?_⟩
    rw [after]
    refine ⟨laid.even, laid.large, stored, by simp, ⟨amount, rfl, ?_⟩, by omega⟩
    rwa [Nat.zero_add]

/-- Without waiting chunks the current chunk is all there is. -/
theorem occupied_of_nil (laid : Laid bytes readAt occupied current []) :
    occupied = chunkSpan current.2.length := by
  obtain ⟨amount, rfl, waiting⟩ := laid.waiting
  cases waiting
  rfl

/-- A header without data has been written behind the current chunk and takes its place. -/
theorem vacate (laid : Laid bytes readAt occupied current []) :
    Laid (writeChunk bytes (readAt + roundUp current.2.length) [] none)
      (readAt + roundUp current.2.length) headerLength (none, []) [] := by
  have within := laid.stored.within
  have large := laid.large
  have even : (readAt + roundUp current.2.length) % 2 = 0 := by
    have place := laid.stored.even
    simp only [roundUp]
    omega
  have room : readAt + roundUp current.2.length + chunkSpan ([] : List UInt8).length ≤
      bytes.size := by
    simp only [chunkSpan, List.length_nil, roundUp] at within ⊢
    omega
  have size := size_writeChunk bytes (readAt + roundUp current.2.length) [] none
  refine ⟨size ▸ laid.even, size ▸ large, stored_writeChunk none even (by decide) room,
    fun _ => rfl, ⟨0, rfl, .none⟩, ?_⟩
  rw [size]
  simp only [headerLength]
  omega

end Laid

end MidiTransport.Ble.Ring
