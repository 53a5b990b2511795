import Mathlib.Data.List.Forall2
import MidiTransport.Ble.Ring
import MidiTransport.Proofs.Ble.Reading

/-!
# Reading a packet in parts

A packet may reach its reader in parts, of which all but the first one continue the one
before. The first part holds the two bytes that tell where the MIDI bytes start, and nothing
else depends on the cuts: parts bring the messages of the whole packet, at the same times
(`Reader.readChunks_of_portions`). Readers that have read the same bytes in different parts
differ in the offset of their cursors, which a new part sets back, so their outcomes are
compared by `Reader.Alike`.
-/

namespace MidiTransport

namespace Stream.Decoder

/-- Draining bytes with their times holds no message back. -/
theorem held_drainTimed {decoder : Decoder} (clear : decoder.held = none)
    (timed : List (UInt8 × Nat)) : (decoder.drainTimed timed).2.held = none := by
  have same := drainTimed_untimed clear timed
  rw [congrArg Prod.snd same]
  exact held_drain _ _

theorem drainTimed_append (decoder : Decoder) (front back : List (UInt8 × Nat)) :
    decoder.drainTimed (front ++ back) =
      ((decoder.drainTimed front).1 ++ ((decoder.drainTimed front).2.drainTimed back).1,
        ((decoder.drainTimed front).2.drainTimed back).2) := by
  induction front generalizing decoder with
  | nil => rfl
  | cons first later ih =>
    obtain ⟨byte, time⟩ := first
    rw [List.cons_append, drainTimed_cons, drainTimed_cons, ih, List.append_assoc]

end Stream.Decoder

namespace Ble

namespace Cursor

variable {left right cursor : Cursor} {front : List UInt8}

theorem findAll_cons (cursor : Cursor) (byte : UInt8) (rest : List UInt8) :
    cursor.findAll (byte :: rest) =
      ((cursor.accept byte).2.toList.map (·, (cursor.accept byte).1.time) ++
          ((cursor.accept byte).1.findAll rest).1,
        ((cursor.accept byte).1.findAll rest).2) :=
  rfl

theorem findAll_append (cursor : Cursor) (front back : List UInt8) :
    cursor.findAll (front ++ back) =
      ((cursor.findAll front).1 ++ ((cursor.findAll front).2.findAll back).1,
        ((cursor.findAll front).2.findAll back).2) := by
  induction front generalizing cursor with
  | nil => rfl
  | cons byte rest ih => simp [findAll, ih]

theorem discarding_findAll (cursor : Cursor) (bytes : List UInt8) :
    (cursor.findAll bytes).2.discarding = cursor.discarding := by
  induction bytes generalizing cursor with
  | nil => rfl
  | cons byte rest ih => exact (ih _).trans (cursor.discarding_accept byte)

theorem time_eq_of_beginPart (same : left.beginPart = right.beginPart) :
    left.time = right.time := by
  have time := congrArg Cursor.time same
  exact time

/-- The offset of a cursor does not matter to the bytes that it is given. -/
theorem accept_congr (same : left.beginPart = right.beginPart) (byte : UInt8) :
    (left.accept byte).2 = (right.accept byte).2 ∧
      (left.accept byte).1.beginPart = (right.accept byte).1.beginPart := by
  obtain ⟨time, afterTime, offset, discarding⟩ := left
  obtain ⟨time', afterTime', offset', discarding'⟩ := right
  obtain ⟨rfl, rfl, -, rfl⟩ := Cursor.mk.inj same
  unfold accept
  dsimp only
  split
  · exact ⟨rfl, rfl⟩
  · exact ⟨rfl, rfl⟩

/-- What a cursor finds does not depend on how far it had got in an earlier part. -/
theorem findAll_congr (same : left.beginPart = right.beginPart) (bytes : List UInt8) :
    (left.findAll bytes).1 = (right.findAll bytes).1 ∧
      (left.findAll bytes).2.beginPart = (right.findAll bytes).2.beginPart := by
  induction bytes generalizing left right with
  | nil => exact ⟨rfl, same⟩
  | cons byte rest ih =>
    obtain ⟨midi, next⟩ := accept_congr same byte
    obtain ⟨later, final⟩ := ih next
    have time := time_eq_of_beginPart next
    refine ⟨?_, final⟩
    rw [findAll_cons, findAll_cons, midi, time, later]

/-- The first two bytes of a packet tell where its MIDI bytes start. -/
theorem beginPacket_append (long : 2 ≤ front.length) (back : List UInt8) :
    cursor.beginPacket (front ++ back) = cursor.beginPacket front := by
  match front with
  | [] | [_] => simp at long
  | _ :: _ :: _ => rfl

/-- A packet is skipped, or all bytes behind its first two are unread at its start. -/
theorem unread_append (cursor : Cursor) (long : 2 ≤ front.length) (back : List UInt8) :
    (cursor.beginPacket front).1.discarding = true ∨
      ((cursor.beginPacket front).1.unread (front ++ back) =
          (cursor.beginPacket front).1.unread front ++ back ∧
        (cursor.beginPacket front).1.discarding = false) := by
  match front with
  | [] | [_] => simp at long
  | header :: second :: rest =>
    simp only [beginPacket]
    split
    · exact .inl rfl
    · split
      · exact .inr ⟨rfl, rfl⟩
      · exact .inr ⟨rfl, rfl⟩

/-- Of a malformed packet a cursor remembers only to skip it. -/
theorem discarding_of_malformed {next : Cursor} {packet : List UInt8}
    (begun : cursor.beginPacket packet = (next, false)) :
    next = { cursor with discarding := true } := by
  unfold beginPacket at begun
  split at begun
  · split at begun
    · exact (Prod.mk.inj begun).1.symm
    · split at begun <;> simp at begun
  · exact (Prod.mk.inj begun).1.symm

/-- Two cursors go to the same place at the start of a packet. -/
theorem beginPacket_congr (same : left.beginPart = right.beginPart) (packet : List UInt8) :
    (left.beginPacket packet).1.beginPart = (right.beginPacket packet).1.beginPart ∧
      (left.beginPacket packet).1.unread packet = (right.beginPacket packet).1.unread packet := by
  obtain ⟨time, afterTime, offset, discarding⟩ := left
  obtain ⟨time', afterTime', offset', discarding'⟩ := right
  obtain ⟨rfl, rfl, -, rfl⟩ := Cursor.mk.inj same
  unfold beginPacket
  split
  · split
    · exact ⟨rfl, rfl⟩
    · split
      · exact ⟨rfl, rfl⟩
      · exact ⟨rfl, rfl⟩
  · exact ⟨rfl, rfl⟩

end Cursor

namespace Reader

variable {left right reader : Reader}

/-- The reader at the start of a further part of its packet. -/
def rewind (reader : Reader) : Reader := { reader with cursor := reader.cursor.beginPart }

/-- The reader at the start of a packet. -/
def start (reader : Reader) (packet : List UInt8) : Reader :=
  { reader with cursor := (reader.cursor.beginPacket packet).1 }

/-- The same messages have been read, and whatever comes next is read in the same way. -/
structure Alike (left right : List (Message × Nat) × Reader) : Prop where
  messages : left.1 = right.1
  rewound : left.2.rewind = right.2.rewind

namespace Alike

variable {first second third : List (Message × Nat) × Reader}

theorem refl (outcome : List (Message × Nat) × Reader) : Alike outcome outcome := ⟨rfl, rfl⟩

theorem symm (alike : Alike first second) : Alike second first :=
  ⟨alike.messages.symm, alike.rewound.symm⟩

theorem trans (alike : Alike first second) (also : Alike second third) : Alike first third :=
  ⟨alike.messages.trans also.messages, alike.rewound.trans also.rewound⟩

end Alike

theorem cursor_of_rewind (same : left.rewind = right.rewind) :
    left.cursor.beginPart = right.cursor.beginPart := by
  have cursor := congrArg Reader.cursor same
  exact cursor

theorem decoder_of_rewind (same : left.rewind = right.rewind) :
    left.decoder = right.decoder := by
  have decoder := congrArg Reader.decoder same
  exact decoder

/-! ## The bytes behind a position -/

theorem held_resolve (reader : Reader) (unread : List UInt8) :
    (reader.resolve unread).2.decoder.held = none :=
  Stream.Decoder.held_drainTimed (reader.decoder.held_drain []) _

/-- Without unread bytes there is nothing to read. -/
theorem resolve_nil (reader : Reader) (clear : reader.decoder.held = none) :
    reader.resolve [] = ([], reader) := by
  rw [resolve_of_clear clear]
  rfl

theorem resolve_append (clear : reader.decoder.held = none) (front back : List UInt8) :
    reader.resolve (front ++ back) =
      ((reader.resolve front).1 ++ ((reader.resolve front).2.resolve back).1,
        ((reader.resolve front).2.resolve back).2) := by
  have cleared := reader.held_resolve front
  rw [resolve_of_clear cleared, resolve_of_clear clear, resolve_of_clear clear,
    Cursor.findAll_append, Stream.Decoder.drainTimed_append]

/-- Reading goes on to skip a packet, or not to skip it. -/
theorem discarding_resolve (clear : reader.decoder.held = none) (unread : List UInt8) :
    (reader.resolve unread).2.cursor.discarding = reader.cursor.discarding := by
  rw [resolve_of_clear clear]
  exact reader.cursor.discarding_findAll unread

/-- Readers that are alike at the start of a part read its bytes alike. -/
theorem resolve_congr (left right : Reader) (clear : left.decoder.held = none)
    (same : left.rewind = right.rewind) (unread : List UInt8) :
    Alike (left.resolve unread) (right.resolve unread) := by
  have decoder := decoder_of_rewind same
  have clear' : right.decoder.held = none := decoder ▸ clear
  obtain ⟨timed, final⟩ := Cursor.findAll_congr (cursor_of_rewind same) unread
  rw [resolve_of_clear clear, resolve_of_clear clear', ← timed, ← decoder]
  exact ⟨rfl, congrArg (Reader.mk · _) final⟩

/-- A skipped packet brings nothing. -/
theorem drain_of_discarding (reader : Reader) (clear : reader.decoder.held = none)
    (skipped : reader.cursor.discarding = true) (data : List UInt8) :
    reader.drain data = ([], reader) := by
  have nothing : reader.cursor.unread data = [] := if_pos skipped
  rw [drain_eq_resolve, nothing, resolve_nil _ clear]

theorem held_drain (reader : Reader) (data : List UInt8) :
    (reader.drain data).2.decoder.held = none := by
  rw [drain_eq_resolve]
  exact reader.held_resolve _

/-! ## Parts -/

/-- Of a skipped packet no further part is read. -/
theorem readPart_of_discarding (reader : Reader) (clear : reader.decoder.held = none)
    (skipped : reader.cursor.discarding = true) (part : List UInt8) :
    reader.readPart part = ([], reader.rewind) :=
  drain_of_discarding reader.rewind clear skipped part

/-- A further part is read from its first byte. -/
theorem readPart_of_kept (kept : reader.cursor.discarding = false) (part : List UInt8) :
    reader.readPart part = reader.rewind.resolve part := by
  have all : reader.cursor.beginPart.unread part = part := by
    simp [Cursor.unread, Cursor.beginPart, kept]
  have resolved := reader.rewind.drain_eq_resolve part
  rw [show reader.rewind.cursor.unread part = part from all] at resolved
  exact resolved

/-- How far a reader had got in an earlier part does not matter to a further one. -/
theorem readPart_congr (same : left.rewind = right.rewind) (part : List UInt8) :
    left.readPart part = right.readPart part :=
  congrArg (drain · part) same

/-- A packet brings what the bytes behind its start bring, which are none in a malformed one. -/
theorem readPacket_eq_drain_start (clear : reader.decoder.held = none) (packet : List UInt8) :
    reader.readPacket packet = (reader.start packet).drain packet := by
  unfold readPacket start
  split
  · rename_i next malformed
    rw [malformed]
    have skipped : next.discarding = true := by
      rw [Cursor.discarding_of_malformed malformed]
    exact (drain_of_discarding ⟨next, reader.decoder⟩ clear skipped packet).symm
  · rename_i next begun
    rw [begun]

/-- How far a reader had got in an earlier part does not matter to another packet. -/
theorem readPacket_congr (clear : left.decoder.held = none) (same : left.rewind = right.rewind)
    (packet : List UInt8) : Alike (left.readPacket packet) (right.readPacket packet) := by
  have decoder := decoder_of_rewind same
  have clear' : right.decoder.held = none := decoder ▸ clear
  obtain ⟨next, unread⟩ := Cursor.beginPacket_congr (cursor_of_rewind same) packet
  have started : (left.start packet).rewind = (right.start packet).rewind := by
    simp only [start, rewind, next, decoder]
  rw [readPacket_eq_drain_start clear, readPacket_eq_drain_start clear', drain_eq_resolve,
    drain_eq_resolve, show (right.start packet).cursor.unread packet = _ from unread.symm]
  exact resolve_congr (left.start packet) (right.start packet) clear started _

/-- What follows a front in the same packet is read as a further part. -/
theorem resolve_append_part (reader : Reader) (clear : reader.decoder.held = none)
    (kept : reader.cursor.discarding = false) (front back : List UInt8) :
    Alike (reader.resolve (front ++ back))
      ((reader.resolve front).1 ++ ((reader.resolve front).2.readPart back).1,
        ((reader.resolve front).2.readPart back).2) := by
  have cleared := reader.held_resolve front
  have still := (discarding_resolve clear front).trans kept
  have further := resolve_congr _ (reader.resolve front).2.rewind cleared rfl back
  rw [resolve_append clear, readPart_of_kept still]
  exact ⟨congrArg ((reader.resolve front).1 ++ ·) further.messages, further.rewound⟩

/-- A part in two pieces is read as two parts. -/
theorem readPart_append (clear : reader.decoder.held = none) (front back : List UInt8) :
    Alike (reader.readPart (front ++ back))
      ((reader.readPart front).1 ++ ((reader.readPart front).2.readPart back).1,
        ((reader.readPart front).2.readPart back).2) := by
  cases skipped : reader.cursor.discarding with
  | true =>
    rw [readPart_of_discarding _ clear skipped, readPart_of_discarding _ clear skipped,
      readPart_of_discarding reader.rewind clear skipped]
    exact ⟨rfl, rfl⟩
  | false =>
    rw [readPart_of_kept skipped, readPart_of_kept skipped]
    exact resolve_append_part reader.rewind clear skipped front back

/-- A packet whose header has come with its first part is read as that part and a further one. The
header and the byte behind it decide how a packet begins. -/
theorem readPacket_append {front : List UInt8} (clear : reader.decoder.held = none)
    (long : 2 ≤ front.length) (back : List UInt8) :
    Alike (reader.readPacket (front ++ back))
      ((reader.readPacket front).1 ++ ((reader.readPacket front).2.readPart back).1,
        ((reader.readPacket front).2.readPart back).2) := by
  have still : (reader.start front).decoder.held = none := clear
  have same : reader.start (front ++ back) = reader.start front := by
    rw [start, start, Cursor.beginPacket_append long]
  rw [readPacket_eq_drain_start clear, readPacket_eq_drain_start clear, same]
  obtain ⟨skipped⟩ | ⟨unread, kept⟩ := Cursor.unread_append reader.cursor long back
  · rw [drain_of_discarding _ still skipped, drain_of_discarding _ still skipped,
      readPart_of_discarding _ still skipped]
    exact ⟨rfl, rfl⟩
  · rw [drain_eq_resolve, drain_eq_resolve,
      show (reader.start front).cursor.unread (front ++ back) = _ from unread]
    exact resolve_append_part _ still kept _ back

/-! ## Chunks -/

/-- Read a chunk: a packet, or a further part of one. -/
def readChunk (reader : Reader) : ChunkKind × List UInt8 → List (Message × Nat) × Reader
  | (.packet, data) => reader.readPacket data
  | (.continuation, data) => reader.readPart data

/-- Read several chunks. -/
def readChunks (reader : Reader) : List (ChunkKind × List UInt8) → List (Message × Nat) × Reader
  | [] => ([], reader)
  | chunk :: chunks =>
    let (messages, next) := reader.readChunk chunk
    let (later, final) := next.readChunks chunks
    (messages ++ later, final)

/-- Read further chunks after what has been read. -/
def goOn (outcome : List (Message × Nat) × Reader) (chunks : List (ChunkKind × List UInt8)) :
    List (Message × Nat) × Reader :=
  (outcome.1 ++ (outcome.2.readChunks chunks).1, (outcome.2.readChunks chunks).2)

theorem goOn_cons (outcome : List (Message × Nat) × Reader) (chunk : ChunkKind × List UInt8)
    (chunks : List (ChunkKind × List UInt8)) :
    goOn outcome (chunk :: chunks) = goOn (goOn outcome [chunk]) chunks := by
  simp [goOn, readChunks]

/-- The messages in front stay in front. -/
theorem goOn_behind (earlier : List (Message × Nat)) (outcome : List (Message × Nat) × Reader)
    (chunks : List (ChunkKind × List UInt8)) :
    goOn (earlier ++ outcome.1, outcome.2) chunks =
      (earlier ++ (goOn outcome chunks).1, (goOn outcome chunks).2) := by
  simp only [goOn, List.append_assoc]

theorem goOn_append (outcome : List (Message × Nat) × Reader)
    (front back : List (ChunkKind × List UInt8)) :
    goOn outcome (front ++ back) = goOn (goOn outcome front) back := by
  induction front generalizing outcome with
  | nil => simp [goOn, readChunks]
  | cons chunk rest ih => rw [List.cons_append, goOn_cons, ih, ← goOn_cons]

theorem readChunks_append (reader : Reader) (front back : List (ChunkKind × List UInt8)) :
    reader.readChunks (front ++ back) = goOn (reader.readChunks front) back :=
  goOn_append ([], reader) front back

theorem held_readChunk (clear : reader.decoder.held = none) (chunk : ChunkKind × List UInt8) :
    (reader.readChunk chunk).2.decoder.held = none := by
  obtain ⟨kind, data⟩ := chunk
  cases kind with
  | packet =>
    rw [readChunk, readPacket_eq_drain_start clear]
    exact held_drain _ _
  | continuation => exact held_drain _ _

/-- Readers that are alike read any chunk alike. -/
theorem readChunk_congr (clear : left.decoder.held = none) (same : left.rewind = right.rewind)
    (chunk : ChunkKind × List UInt8) : Alike (left.readChunk chunk) (right.readChunk chunk) := by
  obtain ⟨kind, data⟩ := chunk
  cases kind with
  | packet => exact readPacket_congr clear same data
  | continuation =>
    rw [readChunk, readChunk, readPart_congr same]
    exact .refl _

theorem held_readChunks (clear : reader.decoder.held = none)
    (chunks : List (ChunkKind × List UInt8)) :
    (reader.readChunks chunks).2.decoder.held = none := by
  induction chunks generalizing reader with
  | nil => exact clear
  | cons chunk rest ih => exact ih (held_readChunk clear chunk)

namespace Alike

variable {first second : List (Message × Nat) × Reader}

/-- The same messages may stand in front. -/
theorem behind (alike : Alike first second) (earlier : List (Message × Nat)) :
    Alike (earlier ++ first.1, first.2) (earlier ++ second.1, second.2) :=
  ⟨congrArg (earlier ++ ·) alike.messages, alike.rewound⟩

/-- Outcomes that are alike go on alike. -/
theorem goOn (alike : Alike first second) (clear : first.2.decoder.held = none)
    (chunks : List (ChunkKind × List UInt8)) :
    Alike (Reader.goOn first chunks) (Reader.goOn second chunks) := by
  induction chunks generalizing first second with
  | nil => simpa [Reader.goOn, readChunks] using alike
  | cons chunk rest ih =>
    have here := readChunk_congr clear alike.rewound chunk
    have next : Alike (Reader.goOn first [chunk]) (Reader.goOn second [chunk]) := by
      simp only [Reader.goOn, readChunks, List.append_nil, alike.messages]
      exact here.behind second.1
    rw [goOn_cons, goOn_cons second]
    exact ih next (held_readChunks clear [chunk])

end Alike

/-- The parts behind a front bring what they would bring in one part. -/
theorem readChunks_continuations (clear : reader.decoder.held = none)
    (parts : List (List UInt8)) :
    Alike (reader.readChunks (parts.map (.continuation, ·))) (reader.readPart parts.flatten) := by
  induction parts generalizing reader with
  | nil =>
    cases skipped : reader.cursor.discarding with
    | true =>
      rw [List.flatten_nil, readPart_of_discarding _ clear skipped]
      exact ⟨rfl, rfl⟩
    | false =>
      rw [List.flatten_nil, readPart_of_kept skipped, resolve_nil reader.rewind clear]
      exact ⟨rfl, rfl⟩
  | cons part later ih =>
    have rest := ih (held_readChunk clear (.continuation, part))
    have joined := readPart_append clear part later.flatten
    exact (rest.behind (reader.readPart part).1).trans joined.symm

/-- The chunks that a packet may reach its reader in: the whole packet, or parts of it of which
the first one has at least two bytes. -/
inductive Portions : List UInt8 → List (ChunkKind × List UInt8) → Prop where
  | whole (packet : List UInt8) : Portions packet [(.packet, packet)]
  | parts (front : List UInt8) (later : List (List UInt8)) (long : 2 ≤ front.length) :
      Portions (front ++ later.flatten) ((.packet, front) :: later.map (.continuation, ·))

/-- It does not matter in which parts a packet arrives. -/
theorem readChunks_of_portions {packet : List UInt8} {chunks : List (ChunkKind × List UInt8)}
    (clear : reader.decoder.held = none) (portions : Portions packet chunks) :
    Alike (reader.readChunks chunks) (reader.readPacket packet) := by
  cases portions with
  | whole =>
    simp only [readChunks, readChunk, List.append_nil]
    exact .refl _
  | parts front later long =>
    have rest := readChunks_continuations (held_readChunk clear (.packet, front)) later
    have joined := readPacket_append clear long later.flatten
    exact (rest.behind (reader.readPacket front).1).trans joined.symm

/-- It does not matter in which parts packets arrive one after the other. -/
theorem readChunks_of_forall_portions {packets : List (List UInt8)}
    {groups : List (List (ChunkKind × List UInt8))} (clear : reader.decoder.held = none)
    (portions : List.Forall₂ Portions packets groups) :
    Alike (reader.readChunks groups.flatten) (reader.readPackets packets) := by
  induction portions generalizing reader with
  | nil => exact .refl _
  | @cons packet chunks packets groups first later ih =>
    have here := readChunks_of_portions clear first
    have cleared := held_readChunk clear (.packet, packet)
    rw [List.flatten_cons, readChunks_append]
    exact (here.goOn (held_readChunks clear chunks) groups.flatten).trans
      ((ih cleared).behind (reader.readPacket packet).1)

end Reader

end Ble

end MidiTransport
