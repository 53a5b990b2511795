import MidiTransport.Proofs.Ble.Packing
import MidiTransport.Proofs.Ble.Session

/-!
# A transmission over a BLE-MIDI link

However the calls of a transmitter are mixed, the packets that it sends carry the bytes of
its messages, in order (`Transmitter.Sent.run`). A reader decodes the joined bytes of the
packets, and so it finds the messages, wherever the packets end.
-/

namespace MidiTransport.Ble

open Stream.Decoder (Spells SpellsAll runningAfter)

namespace Transmitter

/-! ## What sending a message comes down to -/

/-- The packet under way goes on, or it has been sent and a new one goes on. -/
inductive Clears (transmitter : Transmitter) : Transmitter → List (List UInt8) → Prop where
  | kept : transmitter.Clears transmitter []
  | flushed : transmitter.Clears transmitter.flush.1 transmitter.flush.2

section Cases

variable {message : Message} {piece : SysExPiece}

/-- A message is added to the packet under way, or to a new one behind it. It is never dropped. -/
theorem sendWhole_cases (transmitter : Transmitter) (time now : Nat)
    (whole : ∀ piece, message ≠ .sysEx piece) :
    ∃ loaded cleared packer, transmitter.Clears loaded cleared ∧
      loaded.packer.addMessage message time = (packer, true) ∧
      transmitter.sendWhole message time now = ({ loaded with packer }.start now, cleared) := by
  unfold Transmitter.sendWhole
  split
  · rename_i packer added
    exact ⟨transmitter, [], packer, .kept, added, rfl⟩
  · rename_i packer refused
    obtain rfl := Packer.addMessage_refused refused
    have room := Packer.addMessage_accepted transmitter.bytes_flush whole time
    dsimp only
    split
    · rename_i packer added
      exact ⟨_, _, packer, .flushed, added, rfl⟩
    · rename_i dropped
      simp [dropped] at room

/-- As much of a piece as fits is added to the packet under way, or to a new one behind it, and the
rest follows. It is never dropped. -/
theorem sendSysEx_cases (transmitter : Transmitter) (piece : SysExPiece) (time now : Nat) :
    ∃ loaded cleared packer left, transmitter.Clears loaded cleared ∧
      loaded.packer.addSysEx piece.data time = ((packer, left), true) ∧
      transmitter.sendSysEx piece time now =
        ((sendRest ({ loaded with packer }.start now) left time now).1,
          cleared ++ (sendRest ({ loaded with packer }.start now) left time now).2) := by
  have room := Packer.addSysEx_accepted transmitter.bytes_flush piece.data time
  unfold Transmitter.sendSysEx
  by_cases parted : (!piece.first && !transmitter.packer.isEmpty) = true
  · rw [if_pos parted]
    dsimp only
    split
    · rename_i packer left added
      exact ⟨_, _, packer, left, .flushed, added, rfl⟩
    · rename_i dropped
      simp [dropped] at room
  · rw [if_neg parted]
    dsimp only
    split
    · rename_i packer left added
      exact ⟨transmitter, [], packer, left, .kept, added, rfl⟩
    · rename_i refused
      obtain ⟨rfl, rfl⟩ := Packer.addSysEx_refused refused
      split
      · rename_i packer left added
        exact ⟨_, _, packer, left, .flushed, added, rfl⟩
      · rename_i dropped
        simp [dropped] at room

end Cases

namespace Steady

variable {Before : Transmitter → List (List UInt8) → Prop} {transmitter loaded : Transmitter}
  {packets cleared : List (List UInt8)} {time now : Nat}

/-- Clearing the way for more bytes flushes at most. -/
theorem clears (steady : Steady Before) (before : Before transmitter packets)
    (clears : transmitter.Clears loaded cleared) : Before loaded (packets ++ cleared) := by
  cases clears with
  | kept =>
    rw [List.append_nil]
    exact before
  | flushed => exact steady.flush before

/-- A message that fits in one packet is added behind a flush at most. -/
theorem sendWhole {message : Message} (steady : Steady Before)
    (After : Transmitter → List (List UInt8) → Prop)
    (load : ∀ {loaded : Transmitter} {packets : List (List UInt8)} {packer : Packer},
      Before loaded packets → loaded.packer.addMessage message time = (packer, true) →
      After ({ loaded with packer }.start now) packets)
    (whole : ∀ piece, message ≠ .sysEx piece) (before : Before transmitter packets) :
    After (transmitter.sendWhole message time now).1
      (packets ++ (transmitter.sendWhole message time now).2) := by
  obtain ⟨loaded, cleared, packer, clears, added, equation⟩ :=
    transmitter.sendWhole_cases time now whole
  rw [equation]
  exact load (steady.clears before clears) added

/-- A piece is added behind a flush at most, and what is left of it goes on from there. -/
theorem sendSysEx {piece : SysExPiece} (steady : Steady Before)
    (After : Transmitter → List (List UInt8) → Prop)
    (load : ∀ {loaded : Transmitter} {packets : List (List UInt8)} {packer : Packer}
      {left : List UInt8}, Before loaded packets →
      loaded.packer.addSysEx piece.data time = ((packer, left), true) →
      After (sendRest ({ loaded with packer }.start now) left time now).1
        (packets ++ (sendRest ({ loaded with packer }.start now) left time now).2))
    (before : Before transmitter packets) :
    After (transmitter.sendSysEx piece time now).1
      (packets ++ (transmitter.sendSysEx piece time now).2) := by
  obtain ⟨loaded, cleared, packer, left, clears, added, equation⟩ :=
    transmitter.sendSysEx_cases piece time now
  rw [equation, ← List.append_assoc]
  exact load (steady.clears before clears) added

end Steady

/-! ## What the packets carry -/

variable {transmitter : Transmitter} {packets : List (List UInt8)} {midi : List UInt8}
  {running : Option UInt8}

/-- The packets that have been sent and the one under way carry these MIDI bytes. A status
byte that the transmitter may leave out next is this running status. -/
structure Sent (transmitter : Transmitter) (packets : List (List UInt8)) (midi : List UInt8)
    (running : Option UInt8) : Prop where
  carries : ∃ pending, Carries transmitter.packer.bytes pending ∧
    midi = packets.flatMap carried ++ pending
  agrees : transmitter.packer.Agrees running

theorem sent_initial : initial.Sent [] [] none where
  carries := ⟨[], .none, rfl⟩
  agrees := .inl rfl

namespace Sent

/-- Only the packet under way matters. -/
theorem of_packer {other : Transmitter} (sent : transmitter.Sent packets midi running)
    (bytes : other.packer.bytes = transmitter.packer.bytes)
    (status : other.packer.runningStatus = transmitter.packer.runningStatus) :
    other.Sent packets midi running where
  carries := by
    rw [bytes]
    exact sent.carries
  agrees := by
    rw [Packer.Agrees, status]
    exact sent.agrees

/-- Sending the packet under way changes nothing for a reader. -/
theorem flush (sent : transmitter.Sent packets midi running) :
    transmitter.flush.1.Sent (packets ++ transmitter.flush.2) midi running := by
  unfold Transmitter.flush
  split
  · rw [List.append_nil]
    exact sent.of_packer rfl rfl
  · obtain ⟨pending, carries, split⟩ := sent.carries
    refine ⟨⟨[], .none, ?_⟩, Packer.agrees_reset _ _⟩
    rw [split, List.flatMap_append, List.flatMap_singleton, carries.carried_eq, List.append_nil]

/-- Calls that send no message change nothing for a reader. -/
theorem steady (midi : List UInt8) (running : Option UInt8) :
    Steady fun transmitter packets => transmitter.Sent packets midi running where
  of_packer sent same := by
    have bytes := congrArg Packer.bytes same
    have status := congrArg Packer.runningStatus same
    exact sent.of_packer bytes status
  flush sent := sent.flush

theorem start (sent : transmitter.Sent packets midi running) (now : Nat) :
    (transmitter.start now).Sent packets midi running :=
  sent.of_packer rfl rfl

theorem silent (sent : transmitter.Sent packets midi none) :
    transmitter.packer.runningStatus = 0 :=
  sent.agrees.resolve_right (by simp)

/-- More has been added to the packet under way. -/
theorem add (transmitter : Transmitter) {packer : Packer} {pending bytes : List UInt8}
    {after : Option UInt8} (split : midi = packets.flatMap carried ++ pending)
    (carries : Carries packer.bytes (pending ++ bytes)) (agrees : packer.Agrees after) :
    { transmitter with packer }.Sent packets (midi ++ bytes) after where
  carries := ⟨pending ++ bytes, carries, by rw [split, List.append_assoc]⟩
  agrees := agrees

/-! ## System exclusive messages -/

/-- The rest of a piece is carried by the packets that it takes. -/
theorem sendRest {rest : List UInt8} {time now : Nat} (sent : transmitter.Sent packets midi none)
    (continues : Packer.Continues rest) :
    (transmitter.sendRest rest time now).1.Sent
      (packets ++ (transmitter.sendRest rest time now).2) (midi ++ rest) none := by
  fun_induction Transmitter.sendRest transmitter rest time now generalizing packets midi with
  | case1 transmitter => simpa using sent
  | case2 transmitter rest more continued final others equation =>
    rename_i ih
    have flushed := sent.flush
    obtain ⟨pending, carries, split⟩ := flushed.carries
    obtain ⟨taken, divided, later, added, silent⟩ :=
      Packer.continueSysEx_carries time continues carries flushed.silent
    have quiet : continued.1.Agrees none := .inl silent
    have loaded := add transmitter.flush.1 split added quiet
    have done := ih (loaded.start now) later
    rw [equation] at done
    rw [divided, ← List.append_assoc, ← List.append_assoc]
    exact done

/-- A piece has been added as far as it fits, and the rest follows in further packets. -/
theorem sendPiece {packer : Packer} {piece : SysExPiece} {rest : List UInt8} {time now : Nat}
    (sent : transmitter.Sent packets midi running) (formed : piece.WellFormed)
    (silent : piece.first = false → running = none)
    (added : transmitter.packer.addSysEx piece.data time = ((packer, rest), true)) :
    (Transmitter.sendRest ({ transmitter with packer }.start now) rest time now).1.Sent
      (packets ++
        (Transmitter.sendRest ({ transmitter with packer }.start now) rest time now).2)
      (midi ++ piece.data) none := by
  obtain ⟨pending, carries, split⟩ := sent.carries
  have quiet : piece.first = false → transmitter.packer.runningStatus = 0 := by
    intro middle
    obtain rfl := silent middle
    exact sent.silent
  obtain ⟨taken, divided, later, loaded, still⟩ :=
    Packer.addSysEx_carries added formed carries quiet
  have begun : { transmitter with packer }.Sent packets (midi ++ taken) none :=
    add transmitter split loaded (.inl still)
  rw [divided, ← List.append_assoc]
  exact (begun.start now).sendRest later

/-- A piece is carried in full, over all the packets that it takes. -/
theorem sendSysEx {piece : SysExPiece} {time now : Nat}
    (sent : transmitter.Sent packets midi running) (formed : piece.WellFormed)
    (silent : piece.first = false → running = none) :
    (transmitter.sendSysEx piece time now).1.Sent
      (packets ++ (transmitter.sendSysEx piece time now).2) (midi ++ piece.data) none := by
  refine (steady midi running).sendSysEx
    (fun final packets => final.Sent packets (midi ++ piece.data) none) ?_ sent
  intro loaded packets packer left ready added
  exact ready.sendPiece formed silent added

/-! ## All messages -/

/-- A channel, common or real time message is carried by one packet, in a spelling that the reader
knows. -/
theorem sendWhole {message : Message} {time now : Nat} {inside : Bool}
    (sent : transmitter.Sent packets midi running) (fits : message.Fits inside)
    (whole : ∀ piece, message ≠ .sysEx piece) :
    ∃ bytes, Spells running message bytes ∧
      (transmitter.sendWhole message time now).1.Sent
        (packets ++ (transmitter.sendWhole message time now).2) (midi ++ bytes)
        (runningAfter true running message) := by
  refine (steady midi running).sendWhole (fun final packets => ∃ bytes,
    Spells running message bytes ∧
      final.Sent packets (midi ++ bytes) (runningAfter true running message)) ?_ whole sent
  intro loaded packets packer ready added
  obtain ⟨pending, carries, split⟩ := ready.carries
  obtain ⟨bytes, spells, carriesMore, agrees⟩ :=
    Packer.addMessage_carries added fits whole carries ready.agrees
  have begun : { loaded with packer }.Sent packets (midi ++ bytes) _ :=
    add loaded split carriesMore agrees
  exact ⟨bytes, spells, begun.start now⟩

/-- Sending a message extends what the packets carry by a spelling of it. -/
theorem send {message : Message} {time now : Nat} {inside : Bool}
    (sent : transmitter.Sent packets midi running) (fits : message.Fits inside)
    (silent : inside = true → running = none) :
    ∃ bytes, Spells running message bytes ∧
      (transmitter.send message time now).1.Sent
        (packets ++ (transmitter.send message time now).2) (midi ++ bytes)
        (runningAfter true running message) := by
  cases message with
  | sysEx piece =>
    obtain ⟨place, formed⟩ := fits
    refine ⟨piece.data, rfl, sent.sendSysEx formed fun middle => silent ?_⟩
    simpa [middle] using place
  | channel message => exact sent.sendWhole fits (by simp)
  | common message => exact sent.sendWhole fits (by simp)
  | realTime message => exact sent.sendWhole fits (by simp)

/-! ## Runs -/

/-- Within a system exclusive message there is no running status. -/
theorem runningAfter_of_leavesInside {message : Message} {inside : Bool}
    (fits : message.Fits inside) (silent : inside = true → running = none)
    (stays : message.leavesInside inside = true) : runningAfter true running message = none := by
  cases message with
  | channel message =>
    obtain ⟨rfl, -⟩ := fits
    cases stays
  | common message =>
    obtain ⟨rfl, -⟩ := fits
    cases stays
  | realTime message => exact silent stays
  | sysEx piece => rfl

/-- The packets of a run carry a spelling of its messages. -/
theorem run {commands : List Command} {inside : Bool}
    (sent : transmitter.Sent packets midi running) (silent : inside = true → running = none)
    (orderly : Orderly inside (sentMessages commands)) :
    ∃ bytes after, SpellsAll true running (sentMessages commands) bytes ∧
      (transmitter.run commands).1.Sent (packets ++ (transmitter.run commands).2) (midi ++ bytes)
        after := by
  induction commands generalizing transmitter packets midi running inside with
  | nil =>
    refine ⟨[], running, .nil, ?_⟩
    simpa [Transmitter.run] using sent
  | cons command later ih =>
    rw [run_cons, ← List.append_assoc]
    cases spoken : command.message? with
    | none =>
      have skipped : sentMessages (command :: later) = sentMessages later := by
        simp [sentMessages, spoken]
      rw [skipped] at orderly ⊢
      exact ih ((steady midi running).perform_quiet sent spoken) silent orderly
    | some message =>
      cases command with
      | send other time now =>
        obtain rfl : other = message := by simpa [Command.message?] using spoken
        obtain ⟨fits, orderlyLater⟩ := orderly
        obtain ⟨front, here, loaded⟩ := sent.send fits silent
        obtain ⟨back, after, rest, final⟩ :=
          ih loaded (runningAfter_of_leavesInside fits silent) orderlyLater
        refine ⟨front ++ back, after, .cons here rest, ?_⟩
        rw [← List.append_assoc]
        exact final
      | _ => cases spoken

end Sent

end Transmitter

/-- A reader of all packets finds the messages that have been sent, in order and on the first
cable, when the pieces of system exclusive messages are joined on both sides. None of these
messages is left unfinished on either side. -/
theorem joined_readPackets_packetsOfRun (transferUnit : Nat) (commands : List Command)
    (orderly : Orderly false (sentMessages commands)) :
    joined [] ((Reader.initial.readPackets (packetsOfRun transferUnit commands)).1.map Prod.fst) =
        joined [] ((sentMessages commands).map (·.onFirstCable)) ∧
      (joined [] ((sentMessages commands).map (·.onFirstCable))).2 = [] := by
  have started : { Transmitter.initial with transferUnit }.Sent [] [] none :=
    Transmitter.sent_initial.of_packer rfl rfl
  have applied := (Transmitter.Sent.steady [] none).applyUnit started
  obtain ⟨bytes, after, spells, loaded⟩ := applied.run (by simp) orderly
  obtain ⟨pending, carries, split⟩ := loaded.flush.carries
  rw [Transmitter.bytes_flush] at carries
  cases carries
  have all : bytes = (packetsOfRun transferUnit commands).flatMap carried := by
    simpa [packetsOfRun, Transmitter.setTransferUnit] using split
  have unheld : Reader.initial.decoder.held = none := rfl
  have found := congrArg Prod.fst
    (Reader.readPackets_eq_drain unheld (packetsOfRun transferUnit commands))
  dsimp only at found
  rw [found, ← all]
  have follows := Stream.Decoder.follows_initial true
  obtain ⟨same, finished⟩ := follows.drain_all orderly spells
  exact ⟨same.trans (Prod.ext rfl finished.symm), finished⟩

/-- Calls on several cables, with a message in two pieces that a clock byte interrupts while
packets become shorter. -/
def mixedCommands : List Command :=
  [.send (.channel ⟨0x90, 0x40, 0x41, .ofNibble 3⟩) 100 0,
    .send (.sysEx ⟨[0xF0, 0x01, 0x02, 0x03, 0x04], .first, true, false⟩) 101 10,
    .forceUnit (some 8),
    .send (.realTime ⟨0xF8, .first⟩) 102 20,
    .poll 20000,
    .send (.sysEx ⟨[0x05, 0x06, 0x07, 0x08, 0x09, 0xF7], .first, false, true⟩) 103 20010,
    .send (.channel ⟨0xC5, 0x11, 0, .first⟩) 104 20020,
    .send (.channel ⟨0xC5, 0x12, 0, .first⟩) 104 20030]

/-- The two pieces come out as one message behind the clock byte, all on the first cable. -/
theorem joined_readPackets_mixedCommands :
    Orderly false (sentMessages mixedCommands) ∧
      joined [] ((Reader.initial.readPackets (packetsOfRun 23 mixedCommands)).1.map Prod.fst) =
        ([.channel ⟨0x90, 0x40, 0x41, .first⟩, .realTime ⟨0xF8, .first⟩,
            .sysEx ⟨[0xF0, 0x01, 0x02, 0x03, 0x04, 0x05, 0x06, 0x07, 0x08, 0x09, 0xF7], .first,
              true, true⟩,
            .channel ⟨0xC5, 0x11, 0, .first⟩, .channel ⟨0xC5, 0x12, 0, .first⟩],
          []) := by
  have orderly : Orderly false (sentMessages mixedCommands) := by
    refine ⟨⟨rfl, by decide⟩, ⟨rfl, [0x01, 0x02, 0x03, 0x04], by decide +kernel, rfl⟩, rfl,
      ⟨rfl, [0x05, 0x06, 0x07, 0x08, 0x09], by decide +kernel, rfl⟩, ⟨rfl, by decide⟩,
      ⟨rfl, by decide⟩, rfl⟩
  refine ⟨orderly, ?_⟩
  rw [(joined_readPackets_packetsOfRun 23 mixedCommands orderly).1]
  rfl

end MidiTransport.Ble
