import MidiTransport.Ble.Ring

/-!
# The bytes of a ring

A chunk is `Stored` where its header and its data can be read back. That depends on the bytes
of the chunk alone, so a chunk stays where it is as long as nothing is written over it
(`Stored.of_same`), and a chunk that is written within the ring is stored
(`stored_writeChunk`).
-/

namespace MidiTransport.Ble.Ring

variable {bytes others : Array UInt8} {position : Nat} {data : List UInt8}
  {kind : Option ChunkKind}

/-! ## Writing -/

@[simp] theorem size_write (bytes : Array UInt8) (position : Nat) (data : List UInt8) :
    (write bytes position data).size = bytes.size := by
  induction data generalizing bytes position with
  | nil => rfl
  | cons byte rest ih => simp [write, ih]

/-- Bytes in front of the position and behind the data are kept. -/
theorem getD_write_of_outside {place : Nat}
    (outside : place < position ∨ position + data.length ≤ place) :
    (write bytes position data).getD place 0 = bytes.getD place 0 := by
  induction data generalizing bytes position with
  | nil => rfl
  | cons byte rest ih =>
    rw [List.length_cons] at outside
    have other : position ≠ place := by omega
    rw [write, ih (by omega)]
    simp [other]

/-- What has been written is found where it was written. -/
theorem getD_write_of_inside (index : Nat) (within : position + data.length ≤ bytes.size)
    (bound : index < data.length) :
    (write bytes position data).getD (position + index) 0 = data[index] := by
  induction data generalizing bytes position index with
  | nil => cases bound
  | cons byte rest ih =>
    rw [List.length_cons] at within bound
    rw [write]
    cases index with
    | zero =>
      rw [getD_write_of_outside (by omega)]
      simp [show position < bytes.size by omega]
    | succ index =>
      have next : position + (index + 1) = position + 1 + index := by omega
      rw [next, List.getElem_cons_succ]
      exact ih index (by simp; omega) (by omega)

theorem write_append (bytes : Array UInt8) (position : Nat) (front back : List UInt8) :
    write bytes position (front ++ back) =
      write (write bytes position front) (position + front.length) back := by
  induction front generalizing bytes position with
  | nil => rfl
  | cons byte rest ih =>
    rw [List.cons_append, write, ih, write, List.length_cons, Nat.add_assoc, Nat.add_comm 1]

/-! ## Reading -/

/-- A slice within the memory has one byte for each of its places. -/
theorem slice_eq_map {length : Nat} (within : position + length ≤ bytes.size) :
    slice bytes position length =
      (List.range length).map fun index => bytes.getD (position + index) 0 := by
  apply List.ext_getElem
  · simp [slice]
    omega
  · intro index bound _
    have inside : position + index < bytes.size := by
      simp [slice] at bound
      omega
    simp [slice, inside]

/-- What has been written is read back. -/
theorem slice_write (within : position + data.length ≤ bytes.size) :
    slice (write bytes position data) position data.length = data := by
  rw [slice_eq_map (by simpa using within)]
  apply List.ext_getElem
  · simp
  · intro index _ bound
    rw [List.getElem_map, List.getElem_range, getD_write_of_inside index within bound]

/-! ## Chunks -/

/-- The number of bytes that a chunk with so much data takes. -/
def chunkSpan (length : Nat) : Nat := headerLength + roundUp length

/-- A chunk takes its data, up to one byte of padding, and a header of two bytes. -/
theorem chunkSpan_eq (length : Nat) : chunkSpan length = length + length % 2 + 2 := by
  simp only [chunkSpan, headerLength, roundUp]
  omega

/-- A chunk takes whole pairs of bytes. -/
theorem chunkSpan_even (length : Nat) : chunkSpan length % 2 = 0 := by
  rw [chunkSpan_eq]
  omega

/-- A chunk takes bytes even if it is empty. -/
theorem chunkSpan_pos (length : Nat) : 0 < chunkSpan length := by
  rw [chunkSpan_eq]
  omega

/-- A chunk with this kind and data is at this position. -/
structure Stored (bytes : Array UInt8) (position : Nat) (kind : Option ChunkKind)
    (data : List UInt8) : Prop where
  even : position % 2 = 0
  short : data.length ≤ maxChunkLength
  within : position + chunkSpan data.length ≤ bytes.size
  header : headerAt bytes position = data.length + ChunkKind.code kind * 0x4000
  content : slice bytes (position + headerLength) data.length = data

namespace Stored

/-- The header of a chunk tells its length. -/
theorem lengthAt_eq {ring : Ring} (stored : Stored ring.bytes position kind data) :
    ring.lengthAt position = data.length := by
  have short := stored.short
  simp only [maxChunkLength] at short
  rw [lengthAt, stored.header]
  omega

/-- The header of a chunk tells its kind. -/
theorem kindAt_eq {ring : Ring} (stored : Stored ring.bytes position kind data) :
    ring.kindAt position = kind := by
  have short := stored.short
  simp only [maxChunkLength] at short
  have code : (data.length + ChunkKind.code kind * 0x4000) / 0x4000 = ChunkKind.code kind := by
    omega
  rw [kindAt, stored.header, code, ChunkKind.ofCode_code]

/-- Only the bytes of a chunk matter to it. -/
theorem of_same (stored : Stored bytes position kind data) (size : others.size = bytes.size)
    (same : ∀ index < chunkSpan data.length,
      others.getD (position + index) 0 = bytes.getD (position + index) 0) :
    Stored others position kind data where
  even := stored.even
  short := stored.short
  within := by
    rw [size]
    exact stored.within
  header := by
    have span := chunkSpan_eq data.length
    rw [← stored.header, headerAt, headerAt, same 1 (by omega)]
    have first := same 0 (by omega)
    rw [Nat.add_zero] at first
    rw [first]
  content := by
    have span := chunkSpan_eq data.length
    have within := stored.within
    have length : position + headerLength + data.length ≤ bytes.size := by
      simp only [headerLength]
      omega
    have content := stored.content
    rw [slice_eq_map length] at content
    rw [slice_eq_map (size ▸ length)]
    refine Eq.trans (List.map_congr_left ?_) content
    intro index member
    have bound := List.mem_range.mp member
    rw [Nat.add_assoc]
    refine same _ ?_
    simp only [headerLength]
    omega

end Stored

theorem length_header (length : Nat) : (header length kind).length = headerLength := rfl

/-- A chunk leaves the bytes around it alone. -/
theorem getD_writeChunk_of_outside {place : Nat}
    (outside : place < position ∨ position + chunkSpan data.length ≤ place) :
    (writeChunk bytes position data kind).getD place 0 = bytes.getD place 0 := by
  have span := chunkSpan_eq data.length
  refine getD_write_of_outside ?_
  rw [List.length_append, length_header]
  simp only [headerLength]
  omega

@[simp] theorem size_writeChunk (bytes : Array UInt8) (position : Nat) (data : List UInt8)
    (kind : Option ChunkKind) : (writeChunk bytes position data kind).size = bytes.size :=
  size_write _ _ _

/-- Two bits hold the code of a kind, or of none. -/
theorem code_le (kind : Option ChunkKind) : ChunkKind.code kind ≤ 2 := by
  match kind with
  | none | some .packet | some .continuation => decide

/-- A chunk that is written within the ring can be read back. -/
theorem stored_writeChunk (kind : Option ChunkKind) (even : position % 2 = 0)
    (short : data.length ≤ maxChunkLength)
    (within : position + chunkSpan data.length ≤ bytes.size) :
    Stored (writeChunk bytes position data kind) position kind data where
  even := even
  short := short
  within := by simpa using within
  header := by
    have span := chunkSpan_eq data.length
    have total : (header data.length kind ++ data).length = data.length + 2 := by
      simp [header]
    have room : position + (header data.length kind ++ data).length ≤ bytes.size := by omega
    have low := getD_write_of_inside 0 room (by omega)
    have high := getD_write_of_inside 1 room (by omega)
    have code := code_le kind
    simp only [maxChunkLength] at short
    rw [headerAt, writeChunk, high]
    rw [Nat.add_zero] at low
    rw [low]
    simp [header]
    omega
  content := by
    have span := chunkSpan_eq data.length
    rw [writeChunk, write_append, length_header]
    refine slice_write ?_
    simp only [size_write, headerLength]
    omega

end MidiTransport.Ble.Ring
