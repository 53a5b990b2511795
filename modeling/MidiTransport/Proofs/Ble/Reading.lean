import MidiTransport.Ble.Reader
import MidiTransport.Proofs.Stream.Feeding

/-!
# What a reader finds in a packet

A reader alternates between its cursor and its decoder, one message at a time. Nothing of
that can be seen from outside: it finds what its decoder finds in all the MIDI bytes of a
packet, and each message has the time of the byte that completed it
(`Reader.drain_eq_resolve`). `carried` are the MIDI bytes of a packet, whatever the cursor
has read before, and `Reader.readPackets_eq_drain` says that only these bytes matter to the
messages in a run of packets.
-/

namespace MidiTransport

namespace Stream.Decoder

variable {decoder : Decoder}

/-- The messages in bytes that arrived at these times. Each message has the time of the byte
that completed it. -/
def drainTimed (decoder : Decoder) : List (UInt8 × Nat) → List (Message × Nat) × Decoder
  | [] => ([], decoder)
  | (byte, time) :: later =>
    let (events, next) := decoder.drain [byte]
    let (others, final) := next.drainTimed later
    (events.map (·.message, time) ++ others, final)

theorem drainTimed_cons (byte : UInt8) (time : Nat) (later : List (UInt8 × Nat)) :
    decoder.drainTimed ((byte, time) :: later) =
      ((decoder.drain [byte]).1.map (·.message, time) ++
          ((decoder.drain [byte]).2.drainTimed later).1,
        ((decoder.drain [byte]).2.drainTimed later).2) :=
  rfl

/-- The times do not matter to the messages. -/
theorem drainTimed_untimed (clear : decoder.held = none) (timed : List (UInt8 × Nat)) :
    ((decoder.drainTimed timed).1.map Prod.fst, (decoder.drainTimed timed).2) =
      (decoder.messages (timed.map Prod.fst), (decoder.drain (timed.map Prod.fst)).2) := by
  induction timed generalizing decoder with
  | nil => simp [drainTimed, messages, drain_nil clear]
  | cons first later ih =>
    obtain ⟨byte, time⟩ := first
    have rest := ih (decoder.held_drain [byte])
    have split : ((byte, time) :: later).map Prod.fst = [byte] ++ later.map Prod.fst := rfl
    rw [split, messages_append, drain_append, drainTimed_cons]
    simp only [Prod.mk.injEq] at rest
    rw [← rest.1, ← rest.2]
    simp [messages, Function.comp_def]

end Stream.Decoder

namespace Ble

variable {reader : Reader} {cursor : Cursor} {data : List UInt8}

/-- What is left to read behind a position further on. -/
theorem Cursor.unread_of_moved {next : Cursor} {front back : List UInt8}
    (split : cursor.unread data = front ++ back)
    (moved : next.offset = cursor.offset + front.length)
    (kept : next.discarding = cursor.discarding) : next.unread data = back := by
  unfold unread at split ⊢
  rw [kept, moved]
  cases skipped : cursor.discarding with
  | true => simp_all
  | false =>
    simp only [skipped, Bool.false_eq_true, if_false] at split ⊢
    rw [← List.drop_drop, split, List.drop_left]

/-! ## Reading to the end -/

namespace Reader

/-- The messages that a byte held back and the bytes behind the position bring about. -/
def resolve (reader : Reader) (unread : List UInt8) : List (Message × Nat) × Reader :=
  let (early, settled) := reader.decoder.drain []
  let (timed, cursor) := reader.cursor.findAll unread
  let (late, decoder) := settled.drainTimed timed
  (early.map (·.message, reader.cursor.time) ++ late, ⟨cursor, decoder⟩)

/-- A reader that holds nothing back reads as its decoder drains what its cursor finds. -/
theorem resolve_of_clear (clear : reader.decoder.held = none) (unread : List UInt8) :
    reader.resolve unread =
      ((reader.decoder.drainTimed (reader.cursor.findAll unread).1).1,
        ⟨(reader.cursor.findAll unread).2,
          (reader.decoder.drainTimed (reader.cursor.findAll unread).1).2⟩) := by
  simp [resolve, Stream.Decoder.drain_nil clear]

/-- A time byte only moves the cursor. -/
theorem resolve_time {byte : UInt8} {next : Cursor} (clear : reader.decoder.held = none)
    (accepted : reader.cursor.accept byte = (next, none)) (rest : List UInt8) :
    reader.resolve (byte :: rest) = { reader with cursor := next }.resolve rest := by
  have still : { reader with cursor := next }.decoder.held = none := clear
  rw [resolve_of_clear clear, resolve_of_clear still]
  simp [Cursor.findAll, accepted]

/-- A MIDI byte comes before all others, even if the decoder holds it back. -/
theorem resolve_midi {byte midi : UInt8} {next : Cursor} (clear : reader.decoder.held = none)
    (accepted : reader.cursor.accept byte = (next, some midi)) (rest : List UInt8) :
    reader.resolve (byte :: rest) =
      ((reader.decoder.feed midi).2.toList.map (·.message, next.time) ++
          (resolve ⟨next, (reader.decoder.feed midi).1⟩ rest).1,
        (resolve ⟨next, (reader.decoder.feed midi).1⟩ rest).2) := by
  rw [resolve_of_clear clear]
  simp [Cursor.findAll, accepted, Stream.Decoder.drainTimed_cons,
    Stream.Decoder.drain_cons clear, resolve]

/-- A byte held back that completes no message leaves nothing to settle. -/
theorem resolve_resume (reader : Reader) (unread : List UInt8) :
    reader.resolve unread =
      (reader.decoder.resume.2.toList.map (·.message, reader.cursor.time) ++
          ({ reader with decoder := reader.decoder.resume.1 }.resolve unread).1,
        ({ reader with decoder := reader.decoder.resume.1 }.resolve unread).2) := by
  cases held : reader.decoder.held with
  | none => simp [Stream.Decoder.resume, held]
  | some byte =>
    have clear : { reader.decoder with held := none }.held = none := rfl
    simp [resolve, Stream.Decoder.drain_of_held held, Stream.Decoder.drain_cons clear,
      Stream.Decoder.resume, held]

/-- If no message is found, all bytes have been read. -/
theorem resolve_of_scan_none {unread : List UInt8} (clear : reader.decoder.held = none)
    (dry : (reader.scan unread).2 = none) :
    reader.resolve unread = ([], (reader.scan unread).1) := by
  induction unread generalizing reader with
  | nil =>
    rw [resolve_of_clear clear]
    rfl
  | cons byte rest ih =>
    unfold scan at dry ⊢
    split at dry
    · rename_i next accepted
      rw [resolve_time clear accepted]
      exact ih clear dry
    · rename_i next midi accepted
      have kept (quiet : (reader.decoder.feed midi).2 = none) :=
        Stream.Decoder.held_feed_of_none clear quiet
      rw [resolve_midi clear accepted]
      split at dry
      · cases dry
      · rename_i decoder quiet
        rw [quiet] at kept ⊢
        rw [ih (kept rfl) dry]
        rfl

/-- A message that is found comes before those in the bytes that have not been read. -/
theorem resolve_of_scan_some {unread : List UInt8} {event : Event}
    (clear : reader.decoder.held = none) (found : (reader.scan unread).2 = some event) :
    ∃ front back, unread = front ++ back ∧
      (reader.scan unread).1.cursor.offset = reader.cursor.offset + front.length ∧
      reader.resolve unread =
        ((event.message, (reader.scan unread).1.cursor.time) ::
            ((reader.scan unread).1.resolve back).1,
          ((reader.scan unread).1.resolve back).2) := by
  induction unread generalizing reader with
  | nil => cases found
  | cons byte rest ih =>
    have moved := reader.cursor.offset_accept byte
    unfold scan at found ⊢
    -- A byte that brings nothing is read as part of the front, whether it is a time byte or
    -- MIDI.
    split at found
    · rename_i next accepted
      rw [accepted] at moved
      have still : { reader with cursor := next }.decoder.held = none := clear
      obtain ⟨front, back, rfl, later, same⟩ := ih still found
      refine ⟨byte :: front, back, rfl, ?_, (resolve_time clear accepted _).trans same⟩
      rw [later, moved, List.length_cons]
      omega
    · rename_i next midi accepted
      rw [accepted] at moved
      have kept (quiet : (reader.decoder.feed midi).2 = none) :=
        Stream.Decoder.held_feed_of_none clear quiet
      split at found
      · rename_i decoder early fed
        obtain rfl : early = event := by simpa using found
        refine ⟨[byte], rest, rfl, moved, ?_⟩
        rw [resolve_midi clear accepted, fed]
        rfl
      · rename_i decoder quiet
        rw [quiet] at kept
        obtain ⟨front, back, rfl, later, same⟩ := ih (kept rfl) found
        refine ⟨byte :: front, back, rfl, ?_, ?_⟩
        · rw [later, moved, List.length_cons]
          omega
        · rw [resolve_midi clear accepted, quiet, same]
          rfl

/-- If no message comes from what was held back, nothing is held back any more. -/
theorem resume_clear (dry : reader.decoder.resume.2 = none) :
    reader.decoder.resume.1.held = none := by
  unfold Stream.Decoder.resume at dry ⊢
  split
  · assumption
  · rename_i byte held
    rw [held] at dry
    exact Stream.Decoder.held_feed_of_none rfl dry

/-- A pull without a message has settled everything. -/
theorem resolve_of_pull_none (dry : (reader.pull data).2 = none) :
    reader.resolve (reader.cursor.unread data) = ([], (reader.pull data).1) := by
  have cleared (quiet : reader.decoder.resume.2 = none) := resume_clear quiet
  rw [resolve_resume]
  unfold pull at dry ⊢
  split at dry
  · cases dry
  · rename_i decoder quiet
    rw [quiet] at cleared ⊢
    rw [resolve_of_scan_none (cleared rfl) dry]
    rfl

/-- A pull takes the first of the messages that are left to be read. -/
theorem resolve_of_pull_some {event : Event} (found : (reader.pull data).2 = some event) :
    reader.resolve (reader.cursor.unread data) =
      ((event.message, (reader.pull data).1.cursor.time) ::
          ((reader.pull data).1.resolve ((reader.pull data).1.cursor.unread data)).1,
        ((reader.pull data).1.resolve ((reader.pull data).1.cursor.unread data)).2) := by
  have cleared (quiet : reader.decoder.resume.2 = none) := resume_clear quiet
  rw [resolve_resume]
  unfold pull at found ⊢
  split at found
  · rename_i decoder early resumed
    obtain rfl : early = event := by simpa using found
    rw [resumed]
    rfl
  · rename_i decoder quiet
    rw [quiet] at cleared ⊢
    have kept := (offset_scan found).2.2
    obtain ⟨front, back, split, moved, same⟩ := resolve_of_scan_some (cleared rfl) found
    rw [Cursor.unread_of_moved split moved kept, same]
    rfl

/-- Reading message by message finds what the decoder finds in all bytes at once. -/
theorem drain_eq_resolve (reader : Reader) (data : List UInt8) :
    reader.drain data = reader.resolve (reader.cursor.unread data) := by
  fun_induction drain reader data with
  | case1 reader dry => rw [resolve_of_pull_none dry]
  | case2 reader event found next later final equation ih =>
    rw [resolve_of_pull_some found, ← ih, equation]

/-- Without the times a reader drains as its decoder does. -/
theorem drain_untimed (clear : reader.decoder.held = none) (data : List UInt8) :
    ((reader.drain data).1.map Prod.fst, (reader.drain data).2.decoder) =
      (reader.decoder.messages
          ((reader.cursor.findAll (reader.cursor.unread data)).1.map Prod.fst),
        (reader.decoder.drain
          ((reader.cursor.findAll (reader.cursor.unread data)).1.map Prod.fst)).2) := by
  rw [drain_eq_resolve, resolve_of_clear clear]
  exact Stream.Decoder.drainTimed_untimed clear _

end Reader

/-! ## The MIDI bytes of a packet -/

/-- The MIDI bytes among bytes that may stand behind a time byte. -/
def midiBytes (afterTime : Bool) : List UInt8 → List UInt8
  | [] => []
  | byte :: rest =>
    if isData byte || afterTime then byte :: midiBytes false rest else midiBytes true rest

/-- The MIDI bytes of a packet. A malformed packet has none. -/
def carried : List UInt8 → List UInt8
  | [] => []
  | header :: rest => if isData header then [] else midiBytes false rest

/-- What the cursor takes for MIDI does not depend on its time. -/
theorem Cursor.findAll_untimed (cursor : Cursor) (bytes : List UInt8) :
    (cursor.findAll bytes).1.map Prod.fst = midiBytes cursor.afterTime bytes := by
  induction bytes generalizing cursor with
  | nil => rfl
  | cons byte rest ih =>
    have later := ih (cursor.accept byte).1
    by_cases midi : (isData byte || cursor.afterTime) = true
    · simp_all [findAll, accept, midiBytes]
    · simp_all [findAll, accept, midiBytes]

/-- A malformed packet carries nothing. -/
theorem Cursor.carried_of_malformed {next : Cursor} {packet : List UInt8}
    (begun : cursor.beginPacket packet = (next, false)) : carried packet = [] := by
  match packet with
  | [] => rfl
  | [header] => simp [carried, midiBytes]
  | header :: second :: rest =>
    cases malformed : isData header with
    | true => simp [carried, malformed]
    | false =>
      cases goesOn : isData second <;> simp [beginPacket, malformed, goesOn] at begun

/-- The position at the start of a packet is right in front of its MIDI bytes. -/
theorem Cursor.midiBytes_unread {next : Cursor} {packet : List UInt8}
    (begun : cursor.beginPacket packet = (next, true)) :
    midiBytes next.afterTime (next.unread packet) = carried packet := by
  match packet with
  | [] | [header] => simp [beginPacket] at begun
  | header :: second :: rest =>
    cases malformed : isData header with
    | true => simp [beginPacket, malformed] at begun
    | false =>
      cases goesOn : isData second with
      | true =>
        obtain rfl : (⟨headerTime header, false, 1, false⟩ : Cursor) = next := by
          simpa [beginPacket, malformed, goesOn] using begun
        simp [unread, carried, malformed]
      | false =>
        obtain rfl :
            (⟨headerTime header + second.toNat % 128, true, 2, false⟩ : Cursor) = next := by
          simpa [beginPacket, malformed, goesOn] using begun
        simp [unread, carried, midiBytes, malformed, goesOn]

namespace Reader

/-- A packet brings the messages in its MIDI bytes. -/
theorem readPacket_eq_drain (clear : reader.decoder.held = none) (packet : List UInt8) :
    ((reader.readPacket packet).1.map Prod.fst, (reader.readPacket packet).2.decoder) =
      (reader.decoder.messages (carried packet), (reader.decoder.drain (carried packet)).2) := by
  unfold readPacket
  split
  · rename_i next begun
    rw [Cursor.carried_of_malformed begun, Stream.Decoder.messages, Stream.Decoder.drain_nil clear]
    rfl
  · rename_i next begun
    have still : { reader with cursor := next }.decoder.held = none := clear
    rw [drain_untimed still, Cursor.findAll_untimed, Cursor.midiBytes_unread begun]

/-- Packets bring the messages in their joined MIDI bytes. -/
theorem readPackets_eq_drain (clear : reader.decoder.held = none) (packets : List (List UInt8)) :
    ((reader.readPackets packets).1.map Prod.fst, (reader.readPackets packets).2.decoder) =
      (reader.decoder.messages (packets.flatMap carried),
        (reader.decoder.drain (packets.flatMap carried)).2) := by
  induction packets generalizing reader with
  | nil => simp [readPackets, Stream.Decoder.messages, Stream.Decoder.drain_nil clear]
  | cons packet packets ih =>
    have here := readPacket_eq_drain clear packet
    have final : (reader.readPacket packet).2.decoder =
        (reader.decoder.drain (carried packet)).2 := congrArg Prod.snd here
    have cleared : (reader.readPacket packet).2.decoder.held = none := by
      rw [final]
      exact Stream.Decoder.held_drain _ _
    have later := ih cleared
    rw [final] at later
    simp only [Prod.mk.injEq] at here later
    rw [List.flatMap_cons, Stream.Decoder.messages_append, Stream.Decoder.drain_append, ← here.1,
      ← later.1, ← later.2]
    simp [readPackets]

end Reader

end Ble

end MidiTransport
