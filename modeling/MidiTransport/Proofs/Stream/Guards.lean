import MidiTransport.Proofs.Stream.Coherence

/-!
# Decoding with a buffer of fixed size

A guarded pull keeps the bytes of a system exclusive message in a buffer. It has no result as soon
as one of the buffer's guards fails, or a status byte closes a message whose start byte is not the
status of the data bytes. From sound states all guarded pulls have the results of the pulls
themselves (`Decoder.Sound.exists_guardedRun`), so no guard ever fails.
-/

namespace MidiTransport.Stream.Decoder

open SysEx (Buffer)

variable {decoder : Decoder} {byte status : UInt8}

/-! ## Guarded steps -/

/-- Announce the bytes collected so far as a piece and hold back the byte that does not fit. -/
def guardedHandOut (decoder : Decoder) (buffer : Buffer) (byte : UInt8) :
    Option ((Decoder × Option Event) × Buffer) := do
  let buffer ← buffer.handOut?
  let sysEx ← buffer.assembly?
  let next := { decoder with sysEx, held := some byte }
  some ((next, some (.sysExChunk next.sysExPiece)), buffer)

/-- Act on a status byte that arrives inside a system exclusive message, whose start byte must have
been read. -/
def guardedCloseSysEx (decoder : Decoder) (buffer : Buffer) (status : UInt8) :
    Option ((Decoder × Option Event) × Buffer) :=
  if decoder.current = some sysExStart then
    if status = sysExEnd then
      if buffer.hasRoom 1 then do
        let filled ← buffer.append? [sysExEnd]
        let sysEx ← filled.finish.assembly?
        let next := { decoder with sysEx, current := decoder.running }
        some ((next, some (.sysExMessage next.sysExPiece)), filled.finish)
      else decoder.guardedHandOut buffer status
    else do
      let sysEx ← buffer.finish.assembly?
      let next := { decoder with sysEx, current := decoder.running, held := some status }
      some ((next, some (.sysExMessage next.sysExPiece)), buffer.finish)
  else none

/-- Act on a status byte of a message that is not real-time. -/
def guardedTakeStatus (decoder : Decoder) (buffer : Buffer) (status : UInt8) :
    Option ((Decoder × Option Event) × Buffer) :=
  if buffer.receiving then decoder.guardedCloseSysEx buffer status
  else match ByteClass.of status with
    | .sysExStart => do
      let started ← buffer.start.append? [sysExStart]
      let sysEx ← started.assembly?
      some (({ decoder with
            sysEx
            current := some sysExStart
            running := none
            awaitsSecond := false },
          none), started)
    | .channelStatus =>
      some (({ decoder with current := some status, running := some status, awaitsSecond := false },
        none), buffer)
    | .systemCommon => some (decoder.openCommon status, buffer)
    | _ => some ((decoder, none), buffer)

/-- Act on a data byte. -/
def guardedTakeData (decoder : Decoder) (buffer : Buffer) (data : UInt8) :
    Option ((Decoder × Option Event) × Buffer) :=
  match decoder.current with
  | none => some ((decoder, none), buffer)
  | some header =>
    match ByteClass.of header with
    | .sysExStart =>
      if buffer.hasRoom 1 then do
        let filled ← buffer.append? [data]
        let sysEx ← filled.assembly?
        some (({ decoder with sysEx }, none), filled)
      else decoder.guardedHandOut buffer data
    | .channelStatus => some (decoder.takeChannelData header data, buffer)
    | _ => some (decoder.takeCommonData header data, buffer)

/-- Act on one byte. -/
def guardedFeed (decoder : Decoder) (buffer : Buffer) (byte : UInt8) :
    Option ((Decoder × Option Event) × Buffer) :=
  match ByteClass.of byte with
  | .data => decoder.guardedTakeData buffer byte
  | .realTime =>
    let message : RealTimeMessage := ⟨byte, .first⟩
    some (({ decoder with realTime := message }, some (.realTime message)), buffer)
  | _ => decoder.guardedTakeStatus buffer byte

/-- Act on the byte that has been held back, if there is one. -/
def guardedResume (decoder : Decoder) (buffer : Buffer) :
    Option ((Decoder × Option Event) × Buffer) :=
  match decoder.held with
  | none => some ((decoder, none), buffer)
  | some byte => { decoder with held := none }.guardedFeed buffer byte

/-- Read bytes up to the first one that completes a message. -/
def guardedScan (decoder : Decoder) (buffer : Buffer) : List UInt8 → Option (Pull × Buffer)
  | [] => some (⟨decoder, none, []⟩, buffer)
  | byte :: rest => do
    match ← decoder.guardedFeed buffer byte with
    | ((next, some event), buffer) => some (⟨next, some event, rest⟩, buffer)
    | ((next, none), buffer) => next.guardedScan buffer rest

/-- Act on a byte that was held back and then read bytes, up to the next message. -/
def guardedPull (decoder : Decoder) (buffer : Buffer) (input : List UInt8) :
    Option (Pull × Buffer) := do
  match ← decoder.guardedResume buffer with
  | ((next, some event), buffer) => some (⟨next, some event, input⟩, buffer)
  | ((next, none), buffer) => next.guardedScan buffer input

/-- Guarded pulls, one from each of these inputs. -/
def guardedRun (decoder : Decoder) (buffer : Buffer) :
    List (List UInt8) → Option (Decoder × Buffer)
  | [] => some (decoder, buffer)
  | input :: inputs => do
    let (pull, buffer) ← decoder.guardedPull buffer input
    pull.decoder.guardedRun buffer inputs

/-! ## Steps outside system exclusive messages -/

theorem sysEx_openCommon (decoder : Decoder) (status : UInt8) :
    (decoder.openCommon status).1.sysEx = decoder.sysEx := by
  unfold openCommon
  dsimp only
  split <;> rfl

theorem sysEx_takeChannelData (decoder : Decoder) (status byte : UInt8) :
    (decoder.takeChannelData status byte).1.sysEx = decoder.sysEx := by
  unfold takeChannelData
  split
  · rfl
  · dsimp only
    split <;> rfl

theorem sysEx_takeCommonData (decoder : Decoder) (status byte : UInt8) :
    (decoder.takeCommonData status byte).1.sysEx = decoder.sysEx := by
  unfold takeCommonData
  split
  · rfl
  · dsimp only
    split <;> rfl

/-! ## Guards are met -/

/-- A guarded step has the outcome of the step itself, and its buffer holds what the decoder then
assembles. -/
def Agrees (guarded : Option ((Decoder × Option Event) × Buffer))
    (outcome : Decoder × Option Event) : Prop :=
  ∃ buffer, guarded = some (outcome, buffer) ∧ buffer.Holds outcome.1.sysEx

variable {buffer : Buffer}

/-- A step that leaves the assembly alone needs no guard. -/
theorem agrees_untouched {outcome : Decoder × Option Event} (holds : buffer.Holds decoder.sysEx)
    (untouched : outcome.1.sysEx = decoder.sysEx) : Agrees (some (outcome, buffer)) outcome :=
  ⟨buffer, rfl, untouched ▸ holds⟩

/-- Handing a piece out reads bytes that are in the buffer. -/
theorem agrees_handOut (holds : buffer.Holds decoder.sysEx)
    (receiving : decoder.sysEx.receiving = true) :
    Agrees (decoder.guardedHandOut buffer byte) (decoder.handOut byte) := by
  obtain ⟨next, handed, kept⟩ := holds.exists_handOut? receiving
  refine ⟨next, ?_, kept⟩
  simp [guardedHandOut, handOut, handed, kept.assembly?_eq]

namespace Consistent

/-- A message is closed under its own status, and its end byte has room. -/
theorem agrees_closeSysEx (consistent : decoder.Consistent) (holds : buffer.Holds decoder.sysEx)
    (receiving : decoder.sysEx.receiving = true) :
    Agrees (decoder.guardedCloseSysEx buffer status) (decoder.closeSysEx status) := by
  have started := consistent.receiving_iff.mp receiving
  unfold guardedCloseSysEx closeSysEx
  rw [if_pos started, holds.hasRoom_eq]
  split
  · split
    · rename_i room
      obtain ⟨filled, appended, kept⟩ := holds.exists_append? [sysExEnd] room
      refine ⟨filled.finish, ?_, kept.finish⟩
      simp [appended, kept.finish.assembly?_eq]
    · exact agrees_handOut holds receiving
  · refine ⟨buffer.finish, ?_, holds.finish⟩
    simp [holds.finish.assembly?_eq]

/-- A status passes all checks. -/
theorem agrees_takeStatus (consistent : decoder.Consistent) (holds : buffer.Holds decoder.sysEx) :
    Agrees (decoder.guardedTakeStatus buffer status) (decoder.takeStatus status) := by
  unfold guardedTakeStatus takeStatus
  rw [holds.receiving]
  split
  · rename_i receiving
    exact consistent.agrees_closeSysEx holds receiving
  · cases ByteClass.of status with
    | sysExStart =>
      obtain ⟨started, appended, kept⟩ :=
        (Buffer.holds_start buffer decoder.sysEx).exists_append? [sysExStart] rfl
      refine ⟨started, ?_, kept⟩
      simp [appended, kept.assembly?_eq]
    | systemCommon => exact agrees_untouched holds (decoder.sysEx_openCommon status)
    | data | channelStatus | sysExEnd | realTime => exact ⟨buffer, rfl, holds⟩

/-- A data byte passes all checks. -/
theorem agrees_takeData (consistent : decoder.Consistent) (holds : buffer.Holds decoder.sysEx) :
    Agrees (decoder.guardedTakeData buffer byte) (decoder.takeData byte) := by
  unfold guardedTakeData takeData
  cases set : decoder.current with
  | none => exact ⟨buffer, rfl, holds⟩
  | some status =>
    dsimp only
    cases kind : ByteClass.of status with
    | sysExStart =>
      have receiving : decoder.sysEx.receiving = true := by
        rw [consistent.receiving_iff, set, ByteClass.of_eq_sysExStart_iff.mp kind]
      dsimp only
      rw [holds.hasRoom_eq]
      split
      · rename_i room
        obtain ⟨filled, appended, kept⟩ := holds.exists_append? [byte] room
        refine ⟨filled, ?_, kept⟩
        simp [appended, kept.assembly?_eq]
      · exact agrees_handOut holds receiving
    | channelStatus => exact agrees_untouched holds (decoder.sysEx_takeChannelData status byte)
    | data | systemCommon | sysExEnd | realTime =>
      exact agrees_untouched holds (decoder.sysEx_takeCommonData status byte)

theorem agrees_feed (consistent : decoder.Consistent) (holds : buffer.Holds decoder.sysEx)
    (byte : UInt8) : Agrees (decoder.guardedFeed buffer byte) (decoder.feed byte) := by
  unfold guardedFeed feed
  cases ByteClass.of byte with
  | data => exact consistent.agrees_takeData holds
  | realTime => exact ⟨buffer, rfl, holds⟩
  | channelStatus | sysExStart | systemCommon | sysExEnd =>
    exact consistent.agrees_takeStatus holds

end Consistent

namespace Sound

theorem agrees_resume (sound : decoder.Sound) (holds : buffer.Holds decoder.sysEx) :
    Agrees (decoder.guardedResume buffer) decoder.resume := by
  have taken : Consistent { decoder with held := none } := { sound.toConsistent with }
  unfold guardedResume resume
  cases decoder.held with
  | none => exact ⟨buffer, rfl, holds⟩
  | some byte => exact taken.agrees_feed holds byte

/-- A scan passes all checks, from byte to byte. -/
theorem exists_guardedScan (sound : decoder.Sound) (clear : decoder.held = none)
    (holds : buffer.Holds decoder.sysEx) (input : List UInt8) :
    ∃ next, decoder.guardedScan buffer input = some (decoder.scan input, next) ∧
      next.Holds (decoder.scan input).decoder.sysEx := by
  induction input generalizing decoder buffer with
  | nil => exact ⟨buffer, rfl, holds⟩
  | cons byte rest ih =>
    obtain ⟨fed, agrees, kept⟩ := sound.toConsistent.agrees_feed holds byte
    have proper := sound.proper_feed clear byte
    have still (quiet : (decoder.feed byte).2 = none) := held_feed_of_none clear quiet
    rw [guardedScan, scan, agrees]
    generalize decoder.feed byte = outcome at kept proper still
    obtain ⟨next, event?⟩ := outcome
    cases event? with
    | some event => exact ⟨fed, rfl, kept⟩
    | none => exact ih proper.sound (still rfl) kept

/-- A pull passes all checks. -/
theorem exists_guardedPull (sound : decoder.Sound) (holds : buffer.Holds decoder.sysEx)
    (input : List UInt8) :
    ∃ next, decoder.guardedPull buffer input = some (decoder.pull input, next) ∧
      next.Holds (decoder.pull input).decoder.sysEx := by
  obtain ⟨resumed, agrees, kept⟩ := sound.agrees_resume holds
  have proper := sound.proper_resume
  have still (quiet : decoder.resume.2 = none) := held_resume_of_none quiet
  rw [guardedPull, pull, agrees]
  generalize decoder.resume = outcome at kept proper still
  obtain ⟨next, event?⟩ := outcome
  cases event? with
  | some event => exact ⟨resumed, rfl, kept⟩
  | none => exact proper.sound.exists_guardedScan (still rfl) kept input

/-- No guard fails in a run from a sound state. -/
theorem exists_guardedRun (sound : decoder.Sound) (holds : buffer.Holds decoder.sysEx)
    (inputs : List (List UInt8)) :
    ∃ final, decoder.guardedRun buffer inputs = some (decoder.run inputs, final) ∧
      final.Holds (decoder.run inputs).sysEx := by
  induction inputs generalizing decoder buffer with
  | nil => exact ⟨buffer, rfl, holds⟩
  | cons input inputs ih =>
    obtain ⟨next, pulled, kept⟩ := sound.exists_guardedPull holds input
    rw [guardedRun, pulled]
    exact ih (sound.proper_pull input).sound kept

end Sound

end MidiTransport.Stream.Decoder
