import MidiTransport.Proofs.Ble.Buffering

/-!
# A new reader for an old ring

A buffered reader may be replaced at any time, and the new one goes on with the ring of the old
one. The ring still holds the current chunk, of which the old reader has read a part or all, but
how far it has come is gone with it. So the new reader reads the current chunk once more, and as
a further part of a packet even if it is the start of one. That is as if another header stood in
front of it (`messagesOfRun_restart`): its own header is taken for a time byte, and the time byte
behind that for a status.
-/

namespace MidiTransport.Ble

namespace Reader

/-- To a reader that has not read anything, a part is what a packet holds behind its header. -/
theorem readPart_initial {data : List UInt8} (nonempty : data ≠ []) :
    Alike (initial.readPart data) (initial.readPacket (0x80 :: data)) := by
  obtain ⟨first, rest, rfl⟩ := List.exists_cons_of_ne_nil nonempty
  have clear : initial.decoder.held = none := rfl
  have part : initial.readPart (first :: rest) = initial.resolve (first :: rest) :=
    readPart_of_kept rfl _
  have header : isData 0x80 = false := by decide
  rw [part, readPacket_eq_drain_start clear, drain_eq_resolve]
  cases kind : isData first with
  | true =>
    have begun : initial.start (0x80 :: first :: rest) = ⟨⟨0, false, 1, false⟩, .initial true⟩ := by
      simp [start, Cursor.beginPacket, header, kind, initial, headerTime]
    rw [begun]
    exact resolve_congr initial ⟨⟨0, false, 1, false⟩, .initial true⟩ clear rfl _
  | false =>
    have accepted : initial.cursor.accept first = (⟨first.toNat % 128, true, 1, false⟩, none) := by
      have low : first.toNat % 128 < timestampPeriod :=
        Nat.lt_trans (Nat.mod_lt _ (by decide)) (by decide : 128 < timestampPeriod)
      simp [Cursor.accept, kind, initial, Cursor.initial, advanceTime, Nat.mod_eq_of_lt low]
    have begun : initial.start (0x80 :: first :: rest) =
        ⟨⟨first.toNat % 128, true, 2, false⟩, .initial true⟩ := by
      simp [start, Cursor.beginPacket, header, kind, initial, headerTime]
    rw [resolve_time clear accepted, begun]
    exact resolve_congr ⟨⟨first.toNat % 128, true, 1, false⟩, .initial true⟩
      ⟨⟨first.toNat % 128, true, 2, false⟩, .initial true⟩ clear rfl rest

end Reader

namespace BufferedReader

open Reader (Alike)

variable {buffered : BufferedReader} {queue : ChunkQueue} {capacity : Nat}

/-- What calls make of the reader of an empty ring, and new readers in its place. -/
inductive Reached (capacity : Nat) : BufferedReader → Prop where
  | start : Reached capacity (ofRing (.empty capacity))
  | call {buffered : BufferedReader} (reached : Reached capacity buffered) (call : BufferCall) :
      Reached capacity (buffered.perform call).1
  | restart {buffered : BufferedReader} (reached : Reached capacity buffered) :
      Reached capacity buffered.restart

/-- Calls lead from one such reader to another. -/
theorem Reached.run (reached : Reached capacity buffered) (calls : List BufferCall) :
    Reached capacity (buffered.run calls).1 := by
  induction calls generalizing buffered with
  | nil => exact reached
  | cons call later ih => exact ih (reached.call call)

/-- The ring of any such reader holds a queue. -/
theorem Reached.exists_holds (even : capacity % 2 = 0) (large : 4 ≤ capacity)
    (reached : Reached capacity buffered) : ∃ queue, buffered.ring.Holds queue := by
  induction reached with
  | start => exact ⟨.empty, Ring.holds_empty even large⟩
  | @call buffered reached call ih =>
    obtain ⟨queue, holds⟩ := ih
    obtain ⟨next, after, -⟩ := run_accepted buffered [call] holds
    exact ⟨next, after⟩
  | restart _ ih => exact ih

/-- What a new reader takes the current chunk for. -/
def reread : Option ChunkKind × List UInt8 → List (ChunkKind × List UInt8)
  | (none, _) => []
  | (some .continuation, data) => [(.continuation, data)]
  | (some .packet, []) => []
  | (some .packet, data) => [(.packet, 0x80 :: data)]

/-- A further part, or nothing, is read again as what it was. -/
theorem reread_of_ne_packet {current : Option ChunkKind × List UInt8}
    (apart : current.1 ≠ some .packet) :
    reread current = (current.1.map (·, current.2)).toList := by
  match current with
  | (none, _) | (some .continuation, _) => rfl
  | (some .packet, _) => exact absurd rfl apart

/-- The current chunk brings as a further part what it brings as that for which it is taken. -/
theorem alike_reread (current : Option ChunkKind × List UInt8)
    (placeholder : current.1 = none → current.2 = []) :
    Alike (Reader.initial.readChunks [(.continuation, current.2)])
      (Reader.initial.readChunks (reread current)) := by
  have clear : Reader.initial.decoder.held = none := rfl
  have nothing : Alike (Reader.initial.readChunks [(.continuation, [])])
      (Reader.initial.readChunks []) := by
    have empty := outstanding_empty clear
    exact ⟨congrArg Prod.fst empty, congrArg (·.2.rewind) empty⟩
  obtain ⟨kind?, data⟩ := current
  cases kind? with
  | none =>
    obtain rfl : data = [] := placeholder rfl
    exact nothing
  | some kind =>
    cases kind with
    | continuation => exact .refl _
    | packet =>
      cases data with
      | nil => exact nothing
      | cons first rest =>
        have framed := Reader.readPart_initial (List.cons_ne_nil first rest)
        simpa [Reader.readChunks, Reader.readChunk, reread] using framed

/-- A new reader starts with the current chunk, whatever the old one has read of it, and takes it
for a further part. It finds what a reader without a ring finds in these chunks, so a packet is
read with another header in front of it. A current chunk that is not a packet is read for what it
is. -/
theorem messagesOfRun_restart (capacity : Nat) (even : capacity % 2 = 0) (large : 4 ≤ capacity)
    (reached : Reached capacity buffered) (calls : List BufferCall) :
    let current := buffered.ring.current
    let waiting := buffered.ring.takeAll.1 ++ buffered.restart.accepted calls
    buffered.restart.messagesOfRun calls =
        (Reader.initial.readChunks (reread current ++ waiting)).1 ∧
      (current.1 ≠ some .packet →
        buffered.restart.messagesOfRun calls =
          (Reader.initial.readChunks ((current.1.map (·, current.2)).toList ++ waiting)).1) := by
  intro current waiting
  obtain ⟨queue, holds⟩ := reached.exists_holds even large
  have same : buffered.restart.ring.Holds queue := holds
  have clear : Reader.initial.decoder.held = none := rfl
  have alike := alike_reread queue.current holds.laid.placeholder
  have cleared := Reader.held_readChunks clear [(.continuation, queue.current.2)]
  have found : buffered.restart.messagesOfRun calls =
      (Reader.initial.readChunks (reread current ++ waiting)).1 :=
    calc buffered.restart.messagesOfRun calls
      _ = (Reader.goOn (outstanding Reader.initial queue) (buffered.restart.accepted calls)).1 :=
          messagesOfRun_eq same calls
      _ = (Reader.goOn (Reader.initial.readChunks [(.continuation, queue.current.2)])
            (queue.pending ++ buffered.restart.accepted calls)).1 := by
          rw [Reader.goOn_append, ← Reader.readChunks_append]
          rfl
      _ = (Reader.goOn (Reader.initial.readChunks (reread queue.current))
            (queue.pending ++ buffered.restart.accepted calls)).1 := (alike.goOn cleared _).messages
      _ = (Reader.initial.readChunks (reread current ++ waiting)).1 := by
          rw [← Reader.readChunks_append, ← holds.current_eq, ← holds.takeAll_eq]
  refine ⟨found, fun apart => ?_⟩
  rw [found, reread_of_ne_packet apart]

/-- The second packet goes on with the running status of the first one. One pull has found the
message of both. -/
def bareCalls : List BufferCall :=
  [.push [0x80, 0x80, 0x90, 0x40] .packet, .push [0x80, 0x80, 0x7F, 0x41] .packet, .pull]

/-- The same with one packet in two parts. -/
def partedCalls : List BufferCall :=
  [.push [0x80, 0x80, 0x90, 0x40] .packet, .push [0x7F, 0x41] .continuation, .pull]

/-- A new reader takes the time byte of the second packet for a status. The second part of the other
packet is only data to it, and a further packet is read as usual. -/
theorem messagesOfRun_restart_bareCalls :
    64 % 2 = 0 ∧ 4 ≤ 64 ∧ Reached 64 ((ofRing (.empty 64)).run bareCalls).1 ∧
      ((ofRing (.empty 64)).run bareCalls).1.restart.messagesOfRun [] =
        [(.channel ⟨0x80, 0x7F, 0x41, .first⟩, 0)] ∧
      Reached 64 ((ofRing (.empty 64)).run partedCalls).1 ∧
      ((ofRing (.empty 64)).run partedCalls).1.ring.current.1 ≠ some .packet ∧
      ((ofRing (.empty 64)).run partedCalls).1.restart.messagesOfRun
          [.push [0x80, 0x82, 0xFA] .packet] =
        [(.realTime ⟨0xFA, .first⟩, 2)] := by
  have bare : Reached 64 ((ofRing (.empty 64)).run bareCalls).1 := Reached.start.run bareCalls
  have parted : Reached 64 ((ofRing (.empty 64)).run partedCalls).1 := Reached.start.run partedCalls
  have apart : ((ofRing (.empty 64)).run partedCalls).1.ring.current.1 ≠ some .packet := by
    decide +kernel
  refine ⟨by decide, by decide, bare, ?_, parted, apart, ?_⟩
  · rw [(messagesOfRun_restart 64 (by decide) (by decide) bare []).1]
    decide +kernel
  · rw [(messagesOfRun_restart 64 (by decide) (by decide) parted _).2 apart]
    decide +kernel

/-- A new reader finds a message whose status is the time byte of the current packet. The chunks
that wait bring no message, with or without this packet in front of them. -/
theorem pull_restart_timeAsStatus :
    let buffered := ((ofRing (.empty 64)).run bareCalls).1
    buffered.ring.current = (some .packet, [0x80, 0x80, 0x7F, 0x41]) ∧
      (buffered.restart.run [.pull, .pull]).2 =
        [.pulled (some (.channel ⟨0x80, 0x7F, 0x41, .first⟩, 0)), .pulled none] ∧
      (Reader.initial.readChunks buffered.ring.takeAll.1).1 = [] ∧
      (Reader.initial.readChunks
        ((.packet, buffered.ring.current.2) :: buffered.ring.takeAll.1)).1 = [] := by
  decide +kernel

end BufferedReader

end MidiTransport.Ble
