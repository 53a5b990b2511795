import MidiTransport.Proofs.Ble.Packing
import MidiTransport.Proofs.Ble.Parts

/-!
# The times of the bytes in a packet

A reader keeps a clock. The header of a packet sets it, every time byte moves it on, and each
MIDI byte has the time that it shows (`timed`). What a packer writes for a time `time` moves a
clock that shows `clock` to `advanceTime clock (timeByte time)`, and `Shows` follows the clock
over a packet under way. A channel message may come without a time byte, but only if the clock
has not moved since the last one: `Packer.Punctual` is the invariant behind that.
-/

namespace MidiTransport.Ble

/-! ## Reading times -/

/-- The MIDI bytes among bytes that may stand behind a time byte, each with the time that the
clock then shows. -/
def clocked (clock : Nat) (afterTime : Bool) : List UInt8 → List (UInt8 × Nat)
  | [] => []
  | byte :: rest =>
    if isData byte || afterTime then (byte, clock) :: clocked clock false rest
    else clocked (advanceTime clock byte) true rest

/-- The MIDI bytes of a packet, each with its time. A malformed packet has none. -/
def timed : List UInt8 → List (UInt8 × Nat)
  | [] => []
  | header :: rest => if isData header then [] else clocked (headerTime header) false rest

/-- The bytes that a cursor finds carry the times of the clock that starts at the time it has
reached. -/
theorem Cursor.findAll_eq_clocked (cursor : Cursor) (bytes : List UInt8) :
    (cursor.findAll bytes).1 = clocked cursor.time cursor.afterTime bytes := by
  induction bytes generalizing cursor with
  | nil => rfl
  | cons byte rest ih =>
    have later := ih (cursor.accept byte).1
    by_cases midi : (isData byte || cursor.afterTime) = true
    · simp_all [findAll, accept, clocked]
    · simp_all [findAll, accept, clocked]

/-- The time of a header has no low part. -/
theorem headerTime_mod (header : UInt8) : headerTime header % 128 = 0 :=
  Nat.mul_mod_left _ _

/-- No low part carries the time of a header beyond the period. -/
theorem headerTime_lt (header : UInt8) : headerTime header + 127 < timestampPeriod := by
  simp only [headerTime, timestampPeriod, timestampMask]
  omega

/-- The time byte behind a header sets the lower part of the clock. -/
theorem advanceTime_headerTime (header byte : UInt8) :
    advanceTime (headerTime header) byte = headerTime header + byte.toNat % 128 := by
  have aligned := headerTime_mod header
  have bounded := headerTime_lt header
  simp only [advanceTime, timestampPeriod, timestampMask] at bounded ⊢
  rw [aligned, if_neg (Nat.not_lt_zero _)]
  omega

/-- The position at the start of a packet is right in front of its MIDI bytes, and the clock is
set. -/
theorem Cursor.clocked_unread {cursor next : Cursor} {packet : List UInt8}
    (begun : cursor.beginPacket packet = (next, true)) :
    clocked next.time next.afterTime (next.unread packet) = timed packet := by
  match packet with
  | [] | [header] => simp [beginPacket] at begun
  | header :: second :: rest =>
    cases malformed : isData header with
    | true => simp [beginPacket, malformed] at begun
    | false =>
      cases goesOn : isData second with
      | true =>
        obtain rfl : (⟨headerTime header, false, 1, false⟩ : Cursor) = next := by
          simpa [beginPacket, malformed, goesOn] using begun
        simp [unread, timed, malformed]
      | false =>
        obtain rfl :
            (⟨headerTime header + second.toNat % 128, true, 2, false⟩ : Cursor) = next := by
          simpa [beginPacket, malformed, goesOn] using begun
        simp [unread, timed, clocked, malformed, goesOn, advanceTime_headerTime]

/-- A packet without a header has no bytes with times, and is skipped. -/
theorem Cursor.timed_of_malformed {cursor next : Cursor} {packet : List UInt8}
    (begun : cursor.beginPacket packet = (next, false)) :
    timed packet = [] ∧ next.discarding = true := by
  match packet with
  | [] =>
    obtain ⟨rfl, -⟩ := Prod.mk.inj begun
    exact ⟨rfl, rfl⟩
  | [header] =>
    obtain ⟨rfl, -⟩ := Prod.mk.inj begun
    exact ⟨by simp [timed, clocked], rfl⟩
  | header :: second :: rest =>
    cases malformed : isData header with
    | true =>
      obtain rfl : { cursor with discarding := true } = next := by
        simpa [beginPacket, malformed] using begun
      exact ⟨by simp [timed, malformed], rfl⟩
    | false =>
      cases goesOn : isData second <;> simp [beginPacket, malformed, goesOn] at begun

/-- Whatever it has read before, a cursor that begins a packet pulls its MIDI bytes at their
times. -/
theorem Cursor.pullAll_beginPacket (cursor : Cursor) (packet : List UInt8) :
    ((cursor.beginPacket packet).1.pullAll packet).1 = timed packet := by
  generalize begun : cursor.beginPacket packet = outcome
  obtain ⟨next, valid⟩ := outcome
  rw [pullAll, findAll_eq_clocked]
  cases valid with
  | true => exact clocked_unread begun
  | false =>
    obtain ⟨nothing, skipped⟩ := timed_of_malformed begun
    rw [nothing, unread, if_pos skipped]
    rfl

namespace Reader

variable {reader : Reader}

/-- A reader that holds nothing back reads a packet as its decoder drains the bytes with their
times. -/
theorem readPacket_eq_drainTimed (clear : reader.decoder.held = none) (packet : List UInt8) :
    (reader.readPacket packet).1 = (reader.decoder.drainTimed (timed packet)).1 ∧
      (reader.readPacket packet).2.decoder = (reader.decoder.drainTimed (timed packet)).2 := by
  unfold readPacket
  split
  · rename_i next begun
    rw [(Cursor.timed_of_malformed begun).1]
    exact ⟨rfl, rfl⟩
  · rename_i next begun
    have still : { reader with cursor := next }.decoder.held = none := clear
    rw [drain_eq_resolve, resolve_of_clear still, Cursor.findAll_eq_clocked,
      Cursor.clocked_unread begun]
    exact ⟨rfl, rfl⟩

/-- Packets bring the messages in their joined MIDI bytes, at the times of the bytes that complete
them. -/
theorem readPackets_eq_drainTimed (clear : reader.decoder.held = none)
    (packets : List (List UInt8)) :
    (reader.readPackets packets).1 = (reader.decoder.drainTimed (packets.flatMap timed)).1 := by
  induction packets generalizing reader with
  | nil => rfl
  | cons packet packets ih =>
    obtain ⟨here, final⟩ := readPacket_eq_drainTimed clear packet
    have cleared : (reader.readPacket packet).2.decoder.held = none := by
      rw [final]
      exact Stream.Decoder.held_drainTimed clear _
    rw [List.flatMap_cons, Stream.Decoder.drainTimed_append, ← here, ← final, ← ih cleared]
    rfl

end Reader

/-! ## Following the clock -/

/-- How far a time is behind an earlier one. -/
def lag (earlier later : Nat) : Nat :=
  (later + timestampPeriod - earlier % timestampPeriod) % timestampPeriod

/-- From these bytes a reader whose clock shows `before` takes these MIDI bytes and times,
whatever stands behind them, and its clock then shows `after`. -/
def Tells (before : Nat) (bytes : List UInt8) (told : List (UInt8 × Nat)) (after : Nat) : Prop :=
  ∀ more, clocked before false (bytes ++ more) = told ++ clocked after false more

namespace Tells

variable {before middle after : Nat} {bytes more : List UInt8} {told others : List (UInt8 × Nat)}

theorem nil : Tells before [] [] before := fun _ => rfl

theorem append (first : Tells before bytes told middle) (second : Tells middle more others after) :
    Tells before (bytes ++ more) (told ++ others) after := by
  intro rest
  rw [List.append_assoc, first, second, List.append_assoc]

/-- Data bytes leave the clock alone. -/
theorem data (low : ∀ byte ∈ bytes, ByteClass.of byte = .data) :
    Tells before bytes (bytes.map (·, before)) before := by
  intro more
  induction bytes with
  | nil => rfl
  | cons byte rest ih =>
    have here : isData byte = true := by simp [isData, low byte (by simp)]
    have later := ih fun other member => low other (by simp [member])
    simp [clocked, here, later]

/-- A time byte moves the clock to the time of the byte behind it. -/
theorem stamped (before time : Nat) (byte : UInt8) :
    Tells before [timeByte time, byte] [(byte, advanceTime before (timeByte time))]
      (advanceTime before (timeByte time)) := by
  intro more
  simp [clocked, Reads.isData_timeByte]

/-- A byte with its time byte, and data. -/
theorem message (before time : Nat) (status : UInt8)
    (low : ∀ byte ∈ bytes, ByteClass.of byte = .data) :
    Tells before (timeByte time :: status :: bytes)
      ((status :: bytes).map (·, advanceTime before (timeByte time)))
      (advanceTime before (timeByte time)) :=
  (stamped before time status).append (data low)

/-- A time byte in front of data. -/
theorem time (before time : Nat) (nonempty : bytes ≠ [])
    (low : ∀ byte ∈ bytes, ByteClass.of byte = .data) :
    Tells before (timeByte time :: bytes)
      (bytes.map (·, advanceTime before (timeByte time)))
      (advanceTime before (timeByte time)) := by
  obtain ⟨byte, rest, rfl⟩ := List.exists_cons_of_ne_nil nonempty
  exact message before time byte fun other member => low other (by simp [member])

end Tells

/-- A packet that has been begun, with these MIDI bytes at these times. The clock shows `clock`
behind them. -/
inductive Shows : List UInt8 → List (UInt8 × Nat) → Nat → Prop where
  | begun {header : UInt8} {body : List UInt8} {told : List (UInt8 × Nat)} {clock : Nat}
      (marked : isData header = false) (tells : Tells (headerTime header) body told clock) :
      Shows (header :: body) told clock

namespace Shows

variable {packet bytes : List UInt8} {told others : List (UInt8 × Nat)} {clock after : Nat}

/-- What a packet shows is what its bytes are read with. -/
theorem timed_eq (shown : Shows packet told clock) : timed packet = told := by
  cases shown with
  | begun marked tells =>
    have whole := tells []
    simpa [timed, marked, clocked] using whole

theorem append (shown : Shows packet told clock) (tells : Tells clock bytes others after) :
    Shows (packet ++ bytes) (told ++ others) after := by
  cases shown with
  | begun marked before => exact .begun marked (before.append tells)

/-- A header alone shows no bytes yet, and sets the clock. -/
theorem header (time : Nat) : Shows [headerByte time] [] (headerTime (headerByte time)) :=
  .begun (isData_headerByte time) .nil

end Shows

end MidiTransport.Ble
