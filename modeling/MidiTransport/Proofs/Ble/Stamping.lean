import MidiTransport.Proofs.Ble.Clock

/-!
# The times that a packer writes

Every function of a packer that adds something tells a reader the time of what it adds: a reader
whose clock shows `clock` hears it at `advanceTime clock (timeByte time)`. A channel message may
come without a time byte if its time byte is the last one and nothing else has been added since,
and then the reader's clock still shows it (`Packer.Tracks.punctual`). Only the inner bytes of a
system exclusive message come at whatever time the clock shows.
-/

namespace MidiTransport.Ble

/-! ## Moving the clock -/

theorem timeByte_ne_zero (time : Nat) : timeByte time ≠ 0 := by
  intro zero
  have same := toNat_timeByte time
  rw [zero, UInt8.toNat_zero] at same
  omega

/-- A time byte depends on the lower part of the time. -/
theorem timeByte_congr {time other : Nat} (same : time % 128 = other % 128) :
    timeByte time = timeByte other := by
  rw [timeByte, timeByte, same]

/-- A clock stays within the period. -/
theorem advanceTime_lt (clock : Nat) (byte : UInt8) : advanceTime clock byte < timestampPeriod :=
  Nat.mod_lt _ (by decide)

/-- The clock shows the time byte that has moved it. -/
theorem timeByte_advanceTime (clock time : Nat) :
    timeByte (advanceTime clock (timeByte time)) = timeByte time := by
  apply timeByte_congr
  simp only [advanceTime, toNat_timeByte, timestampPeriod, timestampMask]
  split <;> omega

/-- A time byte that the clock shows does not move it. -/
theorem advanceTime_of_shown {clock : Nat} {byte : UInt8} (bounded : clock < timestampPeriod)
    (same : byte = timeByte clock) : advanceTime clock byte = clock := by
  subst same
  simp only [timestampPeriod, timestampMask] at bounded
  simp only [advanceTime, toNat_timeByte, timestampPeriod, timestampMask]
  split <;> omega

/-- The same time byte does not move the clock twice. -/
theorem advanceTime_again (clock time : Nat) :
    advanceTime (advanceTime clock (timeByte time)) (timeByte time) =
      advanceTime clock (timeByte time) :=
  advanceTime_of_shown (advanceTime_lt _ _) (timeByte_advanceTime clock time).symm

namespace Packer

variable {packer next : Packer} {packet : List UInt8} {told : List (UInt8 × Nat)}
  {clock time : Nat}

/-- From this packet a reader takes bytes at these times, and its clock then shows `clock`. It
shows the time byte that the packer may leave out next. -/
structure Tracks (packer : Packer) (packet : List UInt8) (told : List (UInt8 × Nat))
    (clock : Nat) : Prop where
  shown : Shows packet told clock
  bounded : clock < timestampPeriod
  punctual : packer.runningStatus = 0 ∨ packer.runningTime = 0 ∨
    packer.runningTime = timeByte clock

theorem opened_of_ne_nil (begun : packer.bytes ≠ []) (time : Nat) :
    packer.opened time = packer.bytes := by
  simp [opened, isEmpty, begun]

theorem opened_of_nil (empty : packer.bytes = []) (time : Nat) :
    packer.opened time = [headerByte time] := by
  simp [opened, isEmpty, empty]

/-- A packet that a reader takes bytes from is not empty. -/
theorem Tracks.ne_nil (tracks : packer.Tracks packet told clock) : packet ≠ [] := by
  obtain ⟨header, body⟩ := tracks.shown
  simp

/-- A packet that has been begun does not depend on the next time. -/
theorem Tracks.opened (tracks : packer.Tracks packer.bytes told clock) (time : Nat) :
    packer.Tracks (packer.opened time) told clock := by
  rw [opened_of_ne_nil tracks.ne_nil]
  exact tracks

/-- The header of a new packet sets the clock. -/
theorem tracks_of_nil (empty : packer.bytes = []) (silent : packer.runningStatus = 0)
    (time : Nat) : packer.Tracks (packer.opened time) [] (headerTime (headerByte time)) where
  shown := by
    rw [opened_of_nil empty]
    exact .header time
  bounded := Nat.lt_of_le_of_lt (Nat.le_add_right _ 127) (headerTime_lt _)
  punctual := .inl silent

/-! ## Messages in one packet -/

/-- The bytes that the packer adds for a message. -/
def spelling (packer : Packer) : Message → List UInt8
  | .channel message =>
    if message.header = packer.runningStatus then message.dataBytes
    else message.header :: message.dataBytes
  | .common message => message.header :: message.dataBytes
  | .realTime message => [message.byte]
  | .sysEx piece => piece.data

/-- Every channel message has data. -/
theorem channelData_ne_nil (message : ChannelMessage) : message.dataBytes ≠ [] := by
  rw [ChannelMessage.dataBytes]
  split <;> simp

/-- A channel message is heard at the time of its time byte, which may have been left out together
with its status. -/
theorem addChannel_tracks {message : ChannelMessage}
    (added : packer.addChannel message time = (next, true)) (formed : message.WellFormed)
    (tracks : packer.Tracks (packer.opened time) told clock) :
    next.Tracks next.bytes
      (told ++ (packer.spelling (.channel message)).map
        (·, advanceTime clock (timeByte time)))
      (advanceTime clock (timeByte time)) := by
  have low := channelData_low formed
  rw [addChannel_eq, ite_eq_true_iff] at added
  obtain ⟨-, rfl⟩ := added
  refine ⟨?_, advanceTime_lt _ _, .inr (.inr (timeByte_advanceTime clock time).symm)⟩
  dsimp only [spelling]
  by_cases repeats : message.header = packer.runningStatus
  · have nonzero : packer.runningStatus ≠ 0 := repeats ▸ ne_zero_of_channelStatus formed.header
    by_cases early : timeByte time = packer.runningTime
    · -- The clock still shows the time byte that is left out.
      have running : packer.runningTime = timeByte clock := by
        refine (tracks.punctual.resolve_left nonzero).resolve_left ?_
        rw [← early]
        exact timeByte_ne_zero time
      have still := advanceTime_of_shown tracks.bounded (early.trans running)
      simp only [lead, repeats, early, if_true, List.nil_append] at still ⊢
      rw [still]
      exact tracks.shown.append (.data low)
    · simp only [lead, repeats, early, if_true, if_false]
      exact tracks.shown.append (.time clock time (channelData_ne_nil message) low)
  · simp only [lead, repeats, if_false]
    exact tracks.shown.append (.message clock time message.header low)

/-- A common message is heard at the time of its time byte. -/
theorem addCommon_tracks {message : CommonMessage}
    (added : packer.addCommon message time = (next, true)) (formed : message.WellFormed)
    (tracks : packer.Tracks (packer.opened time) told clock) :
    next.Tracks next.bytes
      (told ++ (packer.spelling (.common message)).map (·, advanceTime clock (timeByte time)))
      (advanceTime clock (timeByte time)) := by
  rw [addCommon_eq, ite_eq_true_iff] at added
  obtain ⟨-, rfl⟩ := added
  refine ⟨?_, advanceTime_lt _ _, .inr (.inl rfl)⟩
  exact tracks.shown.append (.message clock time message.header (commonData_low formed))

/-- A real time message is heard at the time of its time byte. -/
theorem addRealTime_tracks {message : RealTimeMessage}
    (added : packer.addRealTime message time = (next, true))
    (tracks : packer.Tracks (packer.opened time) told clock) :
    next.Tracks next.bytes
      (told ++ (packer.spelling (.realTime message)).map (·, advanceTime clock (timeByte time)))
      (advanceTime clock (timeByte time)) := by
  rw [addRealTime_eq, ite_eq_true_iff] at added
  obtain ⟨-, rfl⟩ := added
  exact ⟨tracks.shown.append (.stamped clock time message.byte), advanceTime_lt _ _,
    .inr (.inl rfl)⟩

/-- A message that goes into a packet as a whole is heard at its time. -/
theorem addMessage_tracks {message : Message} {inside : Bool}
    (added : packer.addMessage message time = (next, true)) (fits : message.Fits inside)
    (whole : ∀ piece, message ≠ .sysEx piece)
    (tracks : packer.Tracks (packer.opened time) told clock) :
    next.Tracks next.bytes
      (told ++ (packer.spelling message).map (·, advanceTime clock (timeByte time)))
      (advanceTime clock (timeByte time)) := by
  cases message with
  | channel message => exact addChannel_tracks added fits.2 tracks
  | common message => exact addCommon_tracks added fits.2 tracks
  | realTime message => exact addRealTime_tracks added tracks
  | sysEx piece => exact absurd rfl (whole piece)

/-- The status that the packer may leave out behind a message. -/
def statusAfter (packer : Packer) : Message → UInt8
  | .channel message => message.header
  | .sysEx _ => 0
  | _ => packer.runningStatus

/-- A message that leaves a system exclusive message open leaves the running status alone. -/
theorem addMessage_status {message : Message} (added : packer.addMessage message time = (next, true))
    (whole : ∀ piece, message ≠ .sysEx piece) :
    next.runningStatus = packer.statusAfter message ∧
      (next.sysExOpen = true →
        packer.sysExOpen = true ∧ next.runningStatus = packer.runningStatus) := by
  cases message with
  | channel message =>
    rw [addMessage, addChannel_eq, ite_eq_true_iff] at added
    obtain ⟨-, rfl⟩ := added
    simp [statusAfter]
  | common message =>
    rw [addMessage, addCommon_eq, ite_eq_true_iff] at added
    obtain ⟨-, rfl⟩ := added
    simp [statusAfter]
  | realTime message =>
    rw [addMessage, addRealTime_eq, ite_eq_true_iff] at added
    obtain ⟨-, rfl⟩ := added
    simp [statusAfter]
  | sysEx piece => exact absurd rfl (whole piece)

/-! ## System exclusive messages -/

/-- The bytes that continue a system exclusive message, when the clock shows `clock` and the end
byte comes at `final`. -/
def continued (clock final : Nat) (bytes : List UInt8) : List (UInt8 × Nat) :=
  bytes.map fun byte => (byte, if byte = sysExEnd then final else clock)

/-- The clock behind them. -/
def clockBehind (clock final : Nat) (bytes : List UInt8) : Nat :=
  if sysExEnd ∈ bytes then final else clock

theorem sysExEnd_not_mem {bytes : List UInt8} (low : ∀ byte ∈ bytes, ByteClass.of byte = .data) :
    sysExEnd ∉ bytes :=
  fun member => ne_sysExEnd_of_data (low _ member) rfl

/-- The times do not change the bytes. -/
theorem map_fst_continued (clock final : Nat) (bytes : List UInt8) :
    (continued clock final bytes).map Prod.fst = bytes := by
  simp [continued, Function.comp_def]

/-- Data bytes are heard whenever the clock has been set last. -/
theorem continued_data {bytes : List UInt8} (low : ∀ byte ∈ bytes, ByteClass.of byte = .data)
    (clock final : Nat) : continued clock final bytes = bytes.map (·, clock) := by
  apply List.map_congr_left
  intro byte member
  rw [if_neg (ne_sysExEnd_of_data (low byte member))]

/-- Data bytes tell themselves and do not move the clock. -/
theorem tells_data {bytes : List UInt8} (low : ∀ byte ∈ bytes, ByteClass.of byte = .data)
    (clock final : Nat) :
    Tells clock bytes (continued clock final bytes) (clockBehind clock final bytes) := by
  rw [continued_data low, clockBehind, if_neg (sysExEnd_not_mem low)]
  exact .data low

/-- The last byte of a piece moves the clock if it ends the message. -/
theorem tells_closing {front : List UInt8} {last : UInt8}
    (low : ∀ byte ∈ front, ByteClass.of byte = .data)
    (final : ByteClass.of last = .data ∨ last = sysExEnd) (clock time : Nat) :
    Tells clock (front ++ closing last time)
      (continued clock (advanceTime clock (timeByte time)) (front ++ [last]))
      (clockBehind clock (advanceTime clock (timeByte time)) (front ++ [last])) := by
  rw [closing]
  split
  · rename_i ends
    have told : continued clock (advanceTime clock (timeByte time)) (front ++ [last]) =
        front.map (·, clock) ++ [(last, advanceTime clock (timeByte time))] := by
      rw [continued, List.map_append, ← continued, continued_data low]
      simp [ends]
    have behind : clockBehind clock (advanceTime clock (timeByte time)) (front ++ [last]) =
        advanceTime clock (timeByte time) := by
      rw [clockBehind, if_pos (by simp [ends])]
    rw [told, behind]
    exact (Tells.data low).append (.stamped clock time last)
  · rename_i other
    apply tells_data
    intro byte member
    rcases List.mem_append.mp member with inner | outer
    · exact low byte inner
    · obtain rfl := List.mem_singleton.mp outer
      exact final.resolve_right other

/-- The bytes that are taken are heard, and the others are left. -/
theorem continueSysEx_tracks {data : List UInt8} (continues : Continues data)
    (tracks : packer.Tracks (packer.opened time) told clock) (silent : packer.runningStatus = 0) :
    ∃ taken, data = taken ++ (packer.continueSysEx data time).2 ∧
      Continues (packer.continueSysEx data time).2 ∧
      (packer.continueSysEx data time).1.Tracks (packer.continueSysEx data time).1.bytes
        (told ++ continued clock (advanceTime clock (timeByte time)) taken)
        (clockBehind clock (advanceTime clock (timeByte time)) taken) ∧
      (packer.continueSysEx data time).1.runningStatus = 0 := by
  have bounded (bytes : List UInt8) :
      clockBehind clock (advanceTime clock (timeByte time)) bytes < timestampPeriod := by
    rw [clockBehind]
    split
    · exact advanceTime_lt _ _
    · exact tracks.bounded
  cases continues with
  | nothing =>
    rw [continueSysEx_nil]
    refine ⟨[], rfl, .nothing, ⟨?_, bounded [], .inl silent⟩, silent⟩
    simpa [continued, clockBehind] using tracks.shown
  | @upTo front last low final =>
    rw [continueSysEx_concat]
    dsimp only
    split
    · exact ⟨front ++ [last], by simp, .nothing,
        ⟨tracks.shown.append (tells_closing low final clock time), bounded _, .inl silent⟩, silent⟩
    · have within := Nat.min_le_left front.length
        (packer.capacity.size - (packer.opened time).length)
      revert within
      generalize min front.length _ = count
      intro within
      rw [List.drop_append_of_le_length within]
      refine ⟨front.take count, ?_, ?_, ⟨?_, bounded _, .inl silent⟩, silent⟩
      · rw [← List.append_assoc, List.take_append_drop]
      · exact .upTo (fun byte member => low byte (List.mem_of_mem_drop member)) final
      · exact tracks.shown.append
          (tells_data (fun byte member => low byte (List.mem_of_mem_take member)) clock _)

@[simp] theorem continued_self (clock : Nat) (bytes : List UInt8) :
    continued clock clock bytes = bytes.map (·, clock) := by
  simp [continued]

@[simp] theorem clockBehind_self (clock : Nat) (bytes : List UInt8) :
    clockBehind clock clock bytes = clock :=
  ite_self clock

/-- A start byte has a time byte of its own, and all that is taken with it is heard at its time. -/
theorem addSysEx_start_tracks {data left : List UInt8}
    (added : packer.addSysEx (sysExStart :: data) time = ((next, left), true))
    (continues : Continues data) (tracks : packer.Tracks (packer.opened time) told clock) :
    ∃ taken, sysExStart :: data = taken ++ left ∧ Continues left ∧
      next.Tracks next.bytes (told ++ taken.map (·, advanceTime clock (timeByte time)))
        (advanceTime clock (timeByte time)) ∧
      next.runningStatus = 0 := by
  rw [addSysEx_start, ite_eq_true_iff] at added
  obtain ⟨-, equation⟩ := added
  let started : Packer := { packer with
    bytes := packer.opened time ++ [timeByte time, sysExStart]
    runningStatus := 0 }
  have begun : started.Tracks started.bytes
      (told ++ [(sysExStart, advanceTime clock (timeByte time))])
      (advanceTime clock (timeByte time)) :=
    ⟨tracks.shown.append (.stamped clock time sysExStart), advanceTime_lt _ _, .inl rfl⟩
  obtain ⟨taken, split, later, final, silent⟩ :=
    continueSysEx_tracks continues (begun.opened time) rfl
  rw [equation] at split later final silent
  refine ⟨sysExStart :: taken, by simp [split], later, ?_, silent⟩
  simpa [advanceTime_again] using final

/-- Of data that continues a message a part is heard. Its data bytes come at the time before it, and
its end byte at its own time. -/
theorem addSysEx_rest_tracks {data left : List UInt8}
    (added : packer.addSysEx data time = ((next, left), true)) (continues : Continues data)
    (tracks : packer.Tracks (packer.opened time) told clock) (silent : packer.runningStatus = 0) :
    ∃ taken, data = taken ++ left ∧ Continues left ∧
      next.Tracks next.bytes
        (told ++ continued clock (advanceTime clock (timeByte time)) taken)
        (clockBehind clock (advanceTime clock (timeByte time)) taken) ∧
      next.runningStatus = 0 := by
  rw [addSysEx_rest continues.head_ne, ite_eq_true_iff] at added
  obtain ⟨-, equation⟩ := added
  have heard := continueSysEx_tracks continues tracks silent
  rwa [equation] at heard

end Packer

end MidiTransport.Ble
