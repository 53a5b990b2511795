import Mathlib.Data.List.Chain
import MidiTransport.Proofs.Ble.Stamping
import MidiTransport.Proofs.Ble.Transmission

/-!
# The times of the messages on a BLE-MIDI link

A reader hears every message at the time with which it was sent, up to the period of times, if
each message is less than 128 later than the one before it
(`joinedTimed_readPackets_packetsOfRun`). Whatever calls lie in between, the clock of the reader
then shows the time of the last message, or a new packet sets it (`Transmitter.Heard`).
A system exclusive message may fill several packets, in front of which the clock knows the upper
part of the time only, but its end byte brings the lower part.
-/

namespace MidiTransport

open Stream.Decoder (Spells SpellsAll runningAfter)

/-! ## Messages with their times -/

/-- The messages in one piece, as in `joined`. A system exclusive message has the time of its last
piece. -/
def joinedTimed (held : List UInt8) :
    List (Message × Nat) → List (Message × Nat) × List UInt8
  | [] => ([], held)
  | (message, time) :: later =>
    ((absorb held message).1.map (·, time) ++ (joinedTimed (absorb held message).2 later).1,
      (joinedTimed (absorb held message).2 later).2)

theorem joinedTimed_append (held : List UInt8) (front back : List (Message × Nat)) :
    joinedTimed held (front ++ back) =
      ((joinedTimed held front).1 ++ (joinedTimed (joinedTimed held front).2 back).1,
        (joinedTimed (joinedTimed held front).2 back).2) := by
  induction front generalizing held with
  | nil => rfl
  | cons first later ih =>
    obtain ⟨message, time⟩ := first
    simp only [List.cons_append, joinedTimed, ih, List.append_assoc]

/-- Without their times the messages are joined as before. -/
theorem joinedTimed_untimed (held : List UInt8) (messages : List (Message × Nat)) :
    ((joinedTimed held messages).1.map Prod.fst, (joinedTimed held messages).2) =
      joined held (messages.map Prod.fst) := by
  induction messages generalizing held with
  | nil => rfl
  | cons first later ih =>
    obtain ⟨message, time⟩ := first
    rw [List.map_cons, joined, ← ih]
    simp [joinedTimed, Function.comp_def]

/-- Messages of one time. -/
theorem joinedTimed_map (held : List UInt8) (messages : List Message) (time : Nat) :
    joinedTimed held (messages.map (·, time)) =
      ((joined held messages).1.map (·, time), (joined held messages).2) := by
  induction messages generalizing held with
  | nil => rfl
  | cons message later ih => simp [joinedTimed, joined, ih]

/-- Pieces that finish no message have no time. -/
theorem joinedTimed_of_unfinished {held after : List UInt8} {messages : List (Message × Nat)}
    (unfinished : joined held (messages.map Prod.fst) = ([], after)) :
    joinedTimed held messages = ([], after) := by
  have same := (joinedTimed_untimed held messages).trans unfinished
  obtain ⟨nothing, rest⟩ := Prod.mk.inj same
  exact Prod.ext (List.map_eq_nil_iff.mp nothing) rest

namespace Stream.Decoder

variable {decoder : Decoder} {running : Option UInt8} {time : Nat}

/-- Bytes of one time. -/
theorem drainTimed_map (clear : decoder.held = none) (bytes : List UInt8) (time : Nat) :
    decoder.drainTimed (bytes.map (·, time)) =
      ((decoder.messages bytes).map (·, time), (decoder.drain bytes).2) := by
  induction bytes generalizing decoder with
  | nil => simp [drainTimed, messages, drain_nil clear]
  | cons byte rest ih =>
    have both : decoder.drain (byte :: rest) = _ := decoder.drain_append [byte] rest
    have heard : decoder.messages (byte :: rest) = _ := decoder.messages_append [byte] rest
    rw [List.map_cons, drainTimed_cons, ih (decoder.held_drain [byte]), both, heard]
    simp [messages]

/-- An end byte has this time. -/
def EndsAt (time : Nat) (told : List (UInt8 × Nat)) : Prop :=
  ∀ heard ∈ told, heard.1 = sysExEnd → heard.2 = time

/-- If the end bytes of two parts have one time, then so have those of both. -/
theorem EndsAt.append {told others : List (UInt8 × Nat)} (front : EndsAt time told)
    (back : EndsAt time others) : EndsAt time (told ++ others) := by
  intro heard member
  rcases List.mem_append.mp member with early | late
  · exact front heard early
  · exact back heard late

/-- What a decoder hears of a message of this time. Only the end byte of a system exclusive
message needs to have the time. -/
def HearsAt (running : Option UInt8) (time : Nat) : Message → List (UInt8 × Nat) → Prop
  | .sysEx piece, told => told.map Prod.fst = piece.data ∧ EndsAt time told
  | message, told => ∃ bytes, Spells running message bytes ∧ told = bytes.map (·, time)

/-- The message is heard at its time, and the decoder is ready for the next one. -/
structure Finds (decoder : Decoder) (told : List (UInt8 × Nat)) (message : Message) (time : Nat)
    (running : Option UInt8) : Prop where
  found : joinedTimed [] (decoder.drainTimed told).1 = ([(message.onFirstCable, time)], [])
  ready : (decoder.drainTimed told).2.Ready running

/-- A channel, common or real time message is heard at the time of its bytes. -/
theorem Ready.finds_single {message : Message} {bytes : List UInt8}
    (ready : decoder.Ready running) (fits : message.Fits false)
    (single : ∀ piece, message ≠ .sysEx piece) (spells : Spells running message bytes)
    (time : Nat) :
    decoder.Finds (bytes.map (·, time)) message time
      (runningAfter decoder.keepsRunning running message) := by
  have whole : absorb [] message.onFirstCable = ([message.onFirstCable], []) := by
    cases message with
    | sysEx piece => exact absurd rfl (single piece)
    | _ => rfl
  have outside : message.leavesInside false = false := by
    cases message with
    | sysEx piece => exact absurd rfl (single piece)
    | _ => rfl
  obtain ⟨received, next, heard, drained, same, follows⟩ :=
    (Follows.between ready).drain_message fits spells
  rw [outside, whole] at follows
  rw [whole] at same
  cases follows with
  | between after =>
    have timed := drainTimed_map ready.clear bytes time
    rw [messages, drained] at timed
    constructor
    · rw [timed, joinedTimed_map, same]
      rfl
    · rw [timed]
      exact after

/-- A whole system exclusive message is announced by its end byte. -/
theorem Ready.finds_sysEx {piece : SysExPiece} {told : List (UInt8 × Nat)}
    (ready : decoder.Ready running) (fits : (Message.sysEx piece).Fits false)
    (last : piece.last = true) (spelled : told.map Prod.fst = piece.data)
    (ends : EndsAt time told) :
    decoder.Finds told (.sysEx piece) time none := by
  obtain ⟨first, body, low, data⟩ := fits
  simp only [first, last, Bool.not_false, if_true] at data
  rw [data] at spelled
  obtain ⟨front, back, rfl, opening, closing⟩ := List.map_eq_append_iff.mp spelled
  obtain ⟨final, rfl, ending⟩ := List.map_eq_singleton_iff.mp closing
  obtain rfl : final = (sysExEnd, time) := Prod.ext ending (ends final (by simp) ending)
  -- Up to the end byte the message is a piece that finishes nothing.
  let begun : SysExPiece := ⟨[sysExStart] ++ body, piece.cable, true, false⟩
  have begunFits : (Message.sysEx begun).Fits false := ⟨rfl, body, low, by simp [begun]⟩
  obtain ⟨early, middle, heard, drained, silent, opened⟩ :=
    (Follows.between ready).drain_message begunFits rfl
  have within : middle.Follows true none ([sysExStart] ++ body) heard := opened
  have untimed := drainTimed_untimed ready.clear front
  rw [opening, Decoder.messages, drained] at untimed
  obtain ⟨messages, decoders⟩ := Prod.mk.inj untimed
  rw [← messages] at silent
  have quiet := joinedTimed_of_unfinished silent
  let ended : SysExPiece := ⟨[sysExEnd], piece.cable, false, true⟩
  have endedFits : (Message.sysEx ended).Fits true := ⟨rfl, [], by simp, by simp [ended]⟩
  obtain ⟨late, next, heardAfter, drainedEnd, found, after⟩ := within.drain_message endedFits rfl
  have timedEnd := drainTimed_map within.clear [sysExEnd] time
  rw [Decoder.messages, drainedEnd] at timedEnd
  have whole : absorb ([sysExStart] ++ body) (Message.sysEx ended).onFirstCable =
      ([(Message.sysEx piece).onFirstCable], []) := by
    simp [absorb, Message.onFirstCable, ended, data, first, last]
  have outside : (Message.sysEx ended).leavesInside true = false := rfl
  rw [whole, outside] at after
  cases after with
  | between readyAfter =>
    have single : [(sysExEnd, time)] = [sysExEnd].map (·, time) := rfl
    rw [whole] at found
    constructor
    · rw [drainTimed_append, joinedTimed_append, quiet, decoders, single, timedEnd,
        joinedTimed_map, found]
      rfl
    · rw [drainTimed_append, decoders, single, timedEnd]
      exact readyAfter

/-- A message that is complete is heard at its time. -/
theorem Ready.finds {message : Message} {told : List (UInt8 × Nat)} (ready : decoder.Ready running)
    (fits : message.Fits false) (whole : message.leavesInside false = false)
    (hears : HearsAt running time message told) :
    decoder.Finds told message time (runningAfter decoder.keepsRunning running message) := by
  cases message with
  | sysEx piece =>
    have last : piece.last = true := by simpa [Message.leavesInside] using whole
    exact ready.finds_sysEx fits last hears.1 hears.2
  | _ =>
    obtain ⟨bytes, spells, rfl⟩ := hears
    exact ready.finds_single fits (by simp) spells time

/-- What a decoder hears of messages, one after the other. -/
inductive HearsAll : Option UInt8 → List (Message × Nat) → List (UInt8 × Nat) → Prop where
  | nil {running : Option UInt8} : HearsAll running [] []
  | cons {running : Option UInt8} {message : Message} {time : Nat} {later : List (Message × Nat)}
      {front back : List (UInt8 × Nat)} (here : HearsAt running time message front)
      (rest : HearsAll (runningAfter true running message) later back) :
      HearsAll running ((message, time) :: later) (front ++ back)

/-- A decoder finds all messages at their times. -/
theorem Ready.finds_all {messages : List (Message × Nat)} {told : List (UInt8 × Nat)}
    (ready : decoder.Ready running) (keeps : decoder.keepsRunning = true)
    (whole : ∀ sent ∈ messages, sent.1.Fits false ∧ sent.1.leavesInside false = false)
    (hears : HearsAll running messages told) :
    joinedTimed [] (decoder.drainTimed told).1 =
      (messages.map fun sent => (sent.1.onFirstCable, sent.2), []) := by
  induction hears generalizing decoder with
  | nil => rfl
  | @cons running message time later front back here rest ih =>
    obtain ⟨fits, complete⟩ := whole (message, time) (by simp)
    have finds := ready.finds fits complete here
    rw [keeps] at finds
    have kept : (decoder.drainTimed front).2.keepsRunning = true := by
      have untimed := congrArg Prod.snd (drainTimed_untimed ready.clear front)
      dsimp only at untimed
      rw [untimed, decoder.keepsRunning_drain, keeps]
    have others := ih finds.ready kept fun sent member => whole sent (by simp [member])
    rw [drainTimed_append, joinedTimed_append, finds.found, others]
    rfl

end Stream.Decoder

namespace Ble

open Stream.Decoder (EndsAt HearsAt HearsAll)

/-! ## The clock of a reader -/

/-- Behind this clock the time byte of a time brings the time. -/
def Meets (clock time : Nat) : Prop :=
  advanceTime clock (timeByte time) = time % timestampPeriod

/-- The header of a packet with this first time. -/
theorem meets_header (time : Nat) : Meets (headerTime (headerByte time)) time := by
  rw [Meets, advanceTime_headerTime, ← headerTime_add_timeByte]

/-- A time byte brings its time if it comes less than 128 after the last one. -/
theorem meets_of_lag {earlier later : Nat} (close : lag earlier later < 128) :
    Meets (earlier % timestampPeriod) later :=
  advanceTime_timeByte close

/-- A clock that shows a time already meets it. -/
theorem meets_self (time : Nat) : Meets (time % timestampPeriod) time := by
  apply meets_of_lag
  simp only [lag, timestampPeriod, timestampMask]
  omega

namespace Packer

variable {packer next : Packer} {running : Option UInt8}

/-- What the packer adds for a message is a spelling of it. -/
theorem Agrees.spells {message : Message} {inside : Bool} (agrees : packer.Agrees running)
    (fits : message.Fits inside) : Spells running message (packer.spelling message) := by
  cases message with
  | channel message =>
    dsimp only [spelling]
    split
    · rename_i repeats
      have nonzero : packer.runningStatus ≠ 0 := repeats ▸ ne_zero_of_channelStatus fits.2.header
      exact .inr ⟨by rw [repeats]; exact agrees.resolve_left nonzero, rfl⟩
    · exact .inl rfl
  | common message => rfl
  | realTime message => rfl
  | sysEx piece => rfl

/-- Behind a message packer and reader have the same running status. -/
theorem Agrees.after {message : Message} (agrees : packer.Agrees running)
    (status : next.runningStatus = packer.statusAfter message) :
    next.Agrees (runningAfter true running message) := by
  rw [Agrees, status]
  cases message with
  | channel message => exact .inr rfl
  | common message => exact agrees
  | realTime message => exact agrees
  | sysEx piece => exact .inl rfl

end Packer

namespace Transmitter

variable {transmitter : Transmitter} {packets : List (List UInt8)} {told : List (UInt8 × Nat)}
  {running : Option UInt8} {clock time now : Nat}

/-- From the packets that have been sent and the one under way a reader hears these bytes at these
times. Its clock then shows `clock`, unless a new packet will set it. -/
structure Heard (transmitter : Transmitter) (packets : List (List UInt8))
    (told : List (UInt8 × Nat)) (running : Option UInt8) (clock : Nat) : Prop where
  pending : ∃ pending, told = packets.flatMap timed ++ pending ∧
    (transmitter.packer.bytes = [] ∧ pending = [] ∧ transmitter.packer.runningStatus = 0 ∨
      transmitter.packer.Tracks transmitter.packer.bytes pending clock)
  agrees : transmitter.packer.Agrees running

theorem heard_initial (clock : Nat) : initial.Heard [] [] none clock where
  pending := ⟨[], rfl, .inl ⟨rfl, rfl, rfl⟩⟩
  agrees := .inl rfl

namespace Heard

/-- A message with this time can be added to what the reader hears. -/
theorem primed (heard : transmitter.Heard packets told running clock) (meets : Meets clock time) :
    ∃ pending shown, told = packets.flatMap timed ++ pending ∧
      transmitter.packer.Tracks (transmitter.packer.opened time) pending shown ∧
      Meets shown time := by
  obtain ⟨pending, split, ⟨empty, rfl, silent⟩ | tracks⟩ := heard.pending
  · exact ⟨[], _, split, Packer.tracks_of_nil empty silent time, meets_header time⟩
  · exact ⟨pending, clock, split, tracks.opened time, meets⟩

/-- Calls that send no message change nothing for a reader. -/
theorem steady (told : List (UInt8 × Nat)) (running : Option UInt8) (clock : Nat) :
    Steady fun transmitter packets => transmitter.Heard packets told running clock where
  of_packer {transmitter other packets} heard same := by
    have bytes := congrArg Packer.bytes same
    have status := congrArg Packer.runningStatus same
    have stamp := congrArg Packer.runningTime same
    dsimp only at bytes status stamp
    obtain ⟨pending, split, under⟩ := heard.pending
    refine ⟨⟨pending, split, ?_⟩, ?_⟩
    · rw [bytes, status]
      rcases under with idle | ⟨shown, bounded, punctual⟩
      · exact .inl idle
      · exact .inr ⟨shown, bounded, by rwa [status, stamp]⟩
    · rw [Packer.Agrees, status]
      exact heard.agrees
  flush {transmitter packets} heard := by
    obtain ⟨pending, split, under⟩ := heard.pending
    rcases under with ⟨empty, rfl, silent⟩ | tracks
    · have idle : transmitter.flush = ({ transmitter with started := none }, []) := by
        simp [Transmitter.flush, Packer.isEmpty, empty]
      rw [idle, List.append_nil]
      exact ⟨⟨[], split, .inl ⟨empty, rfl, silent⟩⟩, heard.agrees⟩
    · have sent : transmitter.flush =
          ({ transmitter with started := none, packer := transmitter.packer.reset },
            [transmitter.packer.bytes]) := by
        simp [Transmitter.flush, Packer.isEmpty, tracks.ne_nil]
      rw [sent]
      refine ⟨⟨[], ?_, .inl ⟨rfl, rfl, rfl⟩⟩, Packer.agrees_reset _ _⟩
      rw [split, List.flatMap_append, List.flatMap_singleton, tracks.shown.timed_eq,
        List.append_nil]

theorem start (heard : transmitter.Heard packets told running clock) (now : Nat) :
    (transmitter.start now).Heard packets told running clock :=
  (steady told running clock).of_packer heard rfl

/-- More has been added to the packet under way. -/
theorem add (transmitter : Transmitter) {packer : Packer} {pending more : List (UInt8 × Nat)}
    {after : Option UInt8} (split : told = packets.flatMap timed ++ pending)
    (tracks : packer.Tracks packer.bytes (pending ++ more) clock) (agrees : packer.Agrees after) :
    { transmitter with packer }.Heard packets (told ++ more) after clock where
  pending := ⟨pending ++ more, by rw [split, List.append_assoc], .inr tracks⟩
  agrees := agrees

/-! ## Messages -/

/-- A message that goes into one packet is heard at its time. -/
theorem sendWhole {message : Message} {inside : Bool}
    (heard : transmitter.Heard packets told running clock) (meets : Meets clock time)
    (fits : message.Fits inside) (whole : ∀ piece, message ≠ .sysEx piece) :
    ∃ bytes, Spells running message bytes ∧
      (transmitter.sendWhole message time now).1.Heard
        (packets ++ (transmitter.sendWhole message time now).2)
        (told ++ bytes.map (·, time % timestampPeriod)) (runningAfter true running message)
        (time % timestampPeriod) := by
  refine (steady told running clock).sendWhole (fun final packets => ∃ bytes,
    Spells running message bytes ∧
      final.Heard packets (told ++ bytes.map (·, time % timestampPeriod))
        (runningAfter true running message) (time % timestampPeriod)) ?_ whole heard
  intro loaded packets packer ready added
  obtain ⟨pending, shown, split, tracks, there⟩ := ready.primed meets
  have after := Packer.addMessage_tracks added fits whole tracks
  rw [there] at after
  have status := (Packer.addMessage_status added whole).1
  exact ⟨_, ready.agrees.spells fits,
    (add loaded split after (ready.agrees.after status)).start now⟩

/-- The end byte of a continued message has its own time. -/
theorem endsAt_continued (clock final : Nat) (bytes : List UInt8) :
    EndsAt final (Packer.continued clock final bytes) := by
  intro heard member ending
  obtain ⟨byte, -, rfl⟩ := List.mem_map.mp member
  exact if_pos ending

/-- The end byte brings the clock to the time of the message, and nothing else of it moves the
clock. -/
theorem meets_clockBehind (meets : Meets clock time) (bytes : List UInt8) :
    Meets (Packer.clockBehind clock (time % timestampPeriod) bytes) time := by
  rw [Packer.clockBehind]
  split
  · exact meets_self time
  · exact meets

/-- The rest of a system exclusive message is heard, and its end byte at its time. -/
theorem sendRest {rest : List UInt8} (heard : transmitter.Heard packets told none clock)
    (meets : Meets clock time) (continues : Packer.Continues rest) :
    ∃ more after, more.map Prod.fst = rest ∧ EndsAt (time % timestampPeriod) more ∧
      (transmitter.sendRest rest time now).1.Heard
        (packets ++ (transmitter.sendRest rest time now).2) (told ++ more) none after ∧
      (rest = [] → after = clock) ∧
      (rest.getLast? = some sysExEnd → after = time % timestampPeriod) := by
  fun_induction Transmitter.sendRest transmitter rest time now
    generalizing packets told clock with
  | case1 transmitter =>
    exact ⟨[], clock, rfl, by simp [EndsAt], by simpa using heard, fun _ => rfl, by simp⟩
  | case2 transmitter rest more continued final others equation =>
    rename_i ih
    have flushed := (steady told none clock).flush heard
    obtain ⟨pending, shown, split, tracks, there⟩ := flushed.primed meets
    have quiet : transmitter.flush.1.packer.runningStatus = 0 :=
      flushed.agrees.resolve_right (by simp)
    obtain ⟨taken, divided, later, added, silent⟩ :=
      Packer.continueSysEx_tracks continues tracks quiet
    rw [there] at added
    have still : continued.1.Agrees none := .inl silent
    have loaded := add transmitter.flush.1 split added still
    obtain ⟨remains, after, spelled, ends, done, kept, ended⟩ :=
      ih (loaded.start now) (meets_clockBehind there taken) later
    rw [equation] at done
    refine ⟨Packer.continued shown (time % timestampPeriod) taken ++ remains, after, ?_,
      (endsAt_continued _ _ _).append ends, ?_, fun nothing => absurd nothing more, ?_⟩
    · rw [List.map_append, Packer.map_fst_continued, spelled, ← divided]
    · rw [← List.append_assoc, ← List.append_assoc]
      exact done
    · intro closes
      -- The end byte has been taken now, or it is in the rest.
      by_cases all : continued.2 = []
      · have whole : rest = taken := by rw [divided, all, List.append_nil]
        rw [kept all, Packer.clockBehind, if_pos]
        rw [← whole]
        exact List.mem_of_getLast? closes
      · apply ended
        rw [divided, List.getLast?_append_of_ne_nil _ all] at closes
        exact closes

/-- A whole system exclusive message is heard, and its end byte at its time. -/
theorem sendStarted {packer : Packer} {piece : SysExPiece} {left : List UInt8}
    (heard : transmitter.Heard packets told running clock) (meets : Meets clock time)
    (fits : (Message.sysEx piece).Fits false) (last : piece.last = true)
    (added : transmitter.packer.addSysEx piece.data time = ((packer, left), true)) :
    ∃ more, more.map Prod.fst = piece.data ∧ EndsAt (time % timestampPeriod) more ∧
      (Transmitter.sendRest ({ transmitter with packer }.start now) left time now).1.Heard
        (packets ++
          (Transmitter.sendRest ({ transmitter with packer }.start now) left time now).2)
        (told ++ more) none (time % timestampPeriod) := by
  obtain ⟨first, body, low, spelling⟩ := fits
  have data : piece.data = sysExStart :: (body ++ [sysExEnd]) := by
    rw [spelling, first, last]
    rfl
  rw [data] at added ⊢
  obtain ⟨pending, shown, split, tracks, there⟩ := heard.primed meets
  obtain ⟨taken, divided, later, loaded, silent⟩ :=
    Packer.addSysEx_start_tracks added (Packer.continues_body low true) tracks
  rw [there] at loaded
  have begun : { transmitter with packer }.Heard packets
      (told ++ taken.map (·, time % timestampPeriod)) none (time % timestampPeriod) :=
    add transmitter split loaded (.inl silent)
  obtain ⟨remains, after, spelled, ends, done, kept, ended⟩ :=
    (begun.start now).sendRest (meets_self time) later
  have arrived : after = time % timestampPeriod := by
    by_cases all : left = []
    · exact kept all
    · apply ended
      rw [← List.getLast?_append_of_ne_nil taken all, ← divided, ← List.cons_append]
      exact List.getLast?_concat
  rw [arrived, List.append_assoc] at done
  refine ⟨taken.map (·, time % timestampPeriod) ++ remains, ?_, EndsAt.append ?_ ends, done⟩
  · rw [List.map_append, spelled, divided]
    simp [Function.comp_def]
  · intro byte member _
    obtain ⟨_, -, rfl⟩ := List.mem_map.mp member
    rfl

/-- A complete system exclusive message is heard with its own time at its end byte, however many
packets it takes. -/
theorem sendSysEx {piece : SysExPiece} (heard : transmitter.Heard packets told running clock)
    (meets : Meets clock time) (fits : (Message.sysEx piece).Fits false)
    (last : piece.last = true) :
    ∃ more, more.map Prod.fst = piece.data ∧ EndsAt (time % timestampPeriod) more ∧
      (transmitter.sendSysEx piece time now).1.Heard
        (packets ++ (transmitter.sendSysEx piece time now).2) (told ++ more) none
        (time % timestampPeriod) := by
  refine (steady told running clock).sendSysEx (fun final packets => ∃ more,
    more.map Prod.fst = piece.data ∧ EndsAt (time % timestampPeriod) more ∧
      final.Heard packets (told ++ more) none (time % timestampPeriod)) ?_ heard
  intro loaded packets packer left ready added
  exact ready.sendStarted meets fits last added

/-- Sending a message adds to what the reader hears. -/
theorem send {message : Message} (heard : transmitter.Heard packets told running clock)
    (meets : Meets clock time) (fits : message.Fits false)
    (whole : message.leavesInside false = false) :
    ∃ more, HearsAt running (time % timestampPeriod) message more ∧
      (transmitter.send message time now).1.Heard
        (packets ++ (transmitter.send message time now).2) (told ++ more)
        (runningAfter true running message) (time % timestampPeriod) := by
  cases message with
  | sysEx piece =>
    have last : piece.last = true := by simpa [Message.leavesInside] using whole
    obtain ⟨more, spelled, ends, done⟩ := heard.sendSysEx meets fits last
    exact ⟨more, ⟨spelled, ends⟩, done⟩
  | _ =>
    obtain ⟨bytes, spells, done⟩ := heard.sendWhole meets fits (by simp)
    exact ⟨_, ⟨bytes, spells, rfl⟩, done⟩

end Heard

end Transmitter

/-! ## Runs -/

/-- The message that a call sends, with its time. -/
def Command.timed? : Command → Option (Message × Nat)
  | send message time _ => some (message, time)
  | _ => none

/-- The messages that calls send, each with its time, in order. -/
def sentTimed (commands : List Command) : List (Message × Nat) := commands.filterMap (·.timed?)

/-- A message in one piece that may stand where no system exclusive message is open. -/
def IsComplete (message : Message) : Prop :=
  message.Fits false ∧ message.leavesInside false = false

/-- Each time is less than 128 behind the one before it. -/
def Dense (times : List Nat) : Prop := times.IsChain fun earlier later => lag earlier later < 128

namespace Transmitter

variable {transmitter : Transmitter} {packets : List (List UInt8)} {told : List (UInt8 × Nat)}
  {running : Option UInt8} {clock : Nat}

/-- The packets of a run tell the times of its messages. -/
theorem Heard.run {commands : List Command}
    (heard : transmitter.Heard packets told running clock)
    (whole : ∀ sent ∈ sentTimed commands, IsComplete sent.1)
    (dense : Dense ((sentTimed commands).map Prod.snd))
    (meets : ∀ time ∈ ((sentTimed commands).map Prod.snd).head?, Meets clock time) :
    ∃ more after final,
      HearsAll running ((sentTimed commands).map fun sent => (sent.1, sent.2 % timestampPeriod))
        more ∧
      (transmitter.run commands).1.Heard (packets ++ (transmitter.run commands).2) (told ++ more)
        after final := by
  induction commands generalizing transmitter packets told running clock with
  | nil => exact ⟨[], running, clock, .nil, by simpa [Transmitter.run] using heard⟩
  | cons command later ih =>
    -- Only messages are heard, so the times that have to be dense are theirs alone.
    rw [run_cons, ← List.append_assoc]
    cases spoken : command.message? with
    | none =>
      have skipped : sentTimed (command :: later) = sentTimed later := by
        cases command with
        | send => cases spoken
        | _ => rfl
      rw [skipped] at whole dense meets ⊢
      exact ih ((steady told running clock).perform_quiet heard spoken) whole dense meets
    | some other =>
      cases command with
      | send message time now =>
        have split : sentTimed (.send message time now :: later) =
            (message, time) :: sentTimed later := rfl
        rw [split, List.map_cons] at dense meets
        rw [split] at whole ⊢
        obtain ⟨close, denseLater⟩ := List.isChain_cons.mp dense
        obtain ⟨fits, complete⟩ := whole (message, time) (by simp)
        obtain ⟨front, here, loaded⟩ := heard.send (meets time rfl) fits complete
        obtain ⟨back, after, final, rest, done⟩ :=
          ih loaded (fun sent member => whole sent (by simp [member])) denseLater
            (fun next member => meets_of_lag (close next member))
        refine ⟨front ++ back, after, final, .cons here rest, ?_⟩
        rw [← List.append_assoc]
        exact done
      | _ => cases spoken

end Transmitter

/-- A reader of all packets hears every message at the time with which it was sent, up to the
period of times, and a system exclusive message at the time of its last piece. Calls that send
nothing do not matter, nor do the lengths of packets. -/
theorem joinedTimed_readPackets_packetsOfRun (transferUnit : Nat) (commands : List Command)
    (whole : ∀ sent ∈ sentTimed commands, IsComplete sent.1)
    (dense : Dense ((sentTimed commands).map Prod.snd)) :
    joinedTimed [] (Reader.initial.readPackets (packetsOfRun transferUnit commands)).1 =
      ((sentTimed commands).map fun sent => (sent.1.onFirstCable, sent.2 % timestampPeriod),
        []) := by
  -- Nothing has been sent yet, so any clock will do.
  obtain ⟨clock, meets⟩ :
      ∃ clock, ∀ time ∈ ((sentTimed commands).map Prod.snd).head?, Meets clock time := by
    cases ((sentTimed commands).map Prod.snd).head? with
    | none => exact ⟨0, by simp⟩
    | some time =>
      refine ⟨time % timestampPeriod, ?_⟩
      rintro other ⟨⟩
      exact meets_self time
  have steady := Transmitter.Heard.steady [] none clock
  have started : { Transmitter.initial with transferUnit }.Heard [] [] none clock :=
    steady.of_packer (Transmitter.heard_initial clock) rfl
  obtain ⟨told, after, final, hears, loaded⟩ :=
    (steady.applyUnit started).run whole dense meets
  obtain ⟨pending, split, under⟩ :=
    ((Transmitter.Heard.steady _ after final).flush loaded).pending
  have flushed : pending = [] := by
    rcases under with ⟨-, nothing, -⟩ | tracks
    · exact nothing
    · exact absurd (Transmitter.bytes_flush _) tracks.ne_nil
  have all : told = (packetsOfRun transferUnit commands).flatMap timed := by
    simpa [packetsOfRun, Transmitter.setTransferUnit, flushed] using split
  have unheld : Reader.initial.decoder.held = none := rfl
  have ready := Stream.Decoder.ready_initial true
  have complete : ∀ sent ∈ (sentTimed commands).map
      (fun sent => (sent.1, sent.2 % timestampPeriod)),
        sent.1.Fits false ∧ sent.1.leavesInside false = false := by
    intro sent member
    obtain ⟨origin, inside, rfl⟩ := List.mem_map.mp member
    exact whole origin inside
  have found := ready.finds_all rfl complete hears
  rw [List.map_map] at found
  rw [Reader.readPackets_eq_drainTimed unheld, ← all]
  exact found

/-- A message that fills several packets, the overflow of the lower part and the end of the period,
with calls in between. -/
def wrappingCommands : List Command :=
  [.send (.channel ⟨0x90, 0x40, 0x41, .ofNibble 3⟩) 8100 0,
    .send (.channel ⟨0x90, 0x42, 0x43, .first⟩) 8190 10,
    .forceUnit (some 8),
    .send (.sysEx ⟨[0xF0, 0x01, 0x02, 0x03, 0x04, 0x05, 0x06, 0x07, 0xF7], .first, true, true⟩)
      8200 20,
    .poll 20000,
    .send (.realTime ⟨0xF8, .first⟩) 8320 20010,
    .setTransferUnit 15,
    .send (.common ⟨0xF3, 0x02, 0, .first⟩) 8321 20020]

/-- All messages are heard with the lower thirteen bits of their times. -/
theorem joinedTimed_readPackets_wrappingCommands :
    joinedTimed [] (Reader.initial.readPackets (packetsOfRun 23 wrappingCommands)).1 =
      ([(.channel ⟨0x90, 0x40, 0x41, .first⟩, 8100), (.channel ⟨0x90, 0x42, 0x43, .first⟩, 8190),
          (.sysEx ⟨[0xF0, 0x01, 0x02, 0x03, 0x04, 0x05, 0x06, 0x07, 0xF7], .first, true, true⟩, 8),
          (.realTime ⟨0xF8, .first⟩, 128), (.common ⟨0xF3, 0x02, 0, .first⟩, 129)],
        []) := by
  have whole : ∀ sent ∈ sentTimed wrappingCommands, IsComplete sent.1 := by
    intro sent member
    simp only [sentTimed, wrappingCommands, List.filterMap_cons, Command.timed?,
      List.filterMap_nil, List.mem_cons, List.not_mem_nil, or_false] at member
    rcases member with rfl | rfl | rfl | rfl | rfl
    · exact ⟨⟨rfl, by decide⟩, rfl⟩
    · exact ⟨⟨rfl, by decide⟩, rfl⟩
    · exact ⟨⟨rfl, [0x01, 0x02, 0x03, 0x04, 0x05, 0x06, 0x07], by decide +kernel, rfl⟩, rfl⟩
    · exact ⟨rfl, rfl⟩
    · exact ⟨⟨rfl, by decide⟩, rfl⟩
  have dense : Dense ((sentTimed wrappingCommands).map Prod.snd) := by
    unfold Dense
    decide +kernel
  rw [joinedTimed_readPackets_packetsOfRun 23 wrappingCommands whole dense]
  rfl

end Ble

end MidiTransport
