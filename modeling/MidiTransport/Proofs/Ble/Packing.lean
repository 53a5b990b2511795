import MidiTransport.Ble.Packer
import MidiTransport.Proofs.Ble.Reading
import MidiTransport.Proofs.Stream.Conversation

/-!
# The MIDI bytes that a packer adds

A packer adds time bytes and leaves out status bytes. `Carries` is what a reader makes of the
packet under way, and every function of the packer that adds something extends it by the
bytes of a message. A channel message may lack its status byte there, but then the reader
still has it as its running status: `Packer.Agrees` is the invariant behind that.
-/

namespace MidiTransport.Ble

/-! ## Reading what has been written -/

/-- A reader takes the bytes for these MIDI bytes, whatever stands behind them. -/
def Reads (bytes midi : List UInt8) : Prop :=
  ∀ more, midiBytes false (bytes ++ more) = midi ++ midiBytes false more

namespace Reads

variable {bytes midi : List UInt8}

theorem nil : Reads [] [] := fun _ => rfl

theorem append {more others : List UInt8} (first : Reads bytes midi)
    (second : Reads more others) : Reads (bytes ++ more) (midi ++ others) := by
  intro rest
  rw [List.append_assoc, first, second, List.append_assoc]

/-- Data bytes stand for themselves. -/
theorem data (low : ∀ byte ∈ bytes, ByteClass.of byte = .data) : Reads bytes bytes := by
  intro more
  induction bytes with
  | nil => rfl
  | cons byte rest ih =>
    have here : isData byte = true := by simp [isData, low byte (by simp)]
    have later := ih fun other member => low other (by simp [member])
    simp [midiBytes, here, later]

theorem isData_timeByte (time : Nat) : isData (timeByte time) = false := by
  have notLow : ¬ timeByte time < 0x80 := by
    rw [UInt8.lt_iff_toNat_lt, toNat_timeByte]
    simp
  simpa [← isData_iff] using notLow

/-- The byte behind a time byte is MIDI. -/
theorem stamped (time : Nat) (byte : UInt8) : Reads [timeByte time, byte] [byte] := by
  intro more
  simp [midiBytes, isData_timeByte]

/-- A status byte with its time byte, and data. -/
theorem message (time : Nat) (status : UInt8)
    (low : ∀ byte ∈ bytes, ByteClass.of byte = .data) :
    Reads (timeByte time :: status :: bytes) (status :: bytes) :=
  (stamped time status).append (data low)

/-- A time byte in front of data is not MIDI. -/
theorem time (time : Nat) (nonempty : bytes ≠ [])
    (low : ∀ byte ∈ bytes, ByteClass.of byte = .data) : Reads (timeByte time :: bytes) bytes := by
  obtain ⟨byte, rest, rfl⟩ := List.exists_cons_of_ne_nil nonempty
  exact (stamped time byte).append (data fun other member => low other (by simp [member]))

end Reads

/-- A packet with these MIDI bytes, to which more can be added. It may not have been begun. -/
inductive Carries : List UInt8 → List UInt8 → Prop where
  | none : Carries [] []
  | begun {header : UInt8} {body midi : List UInt8} (marked : isData header = false)
      (reads : Reads body midi) : Carries (header :: body) midi

variable {packer next : Packer} {packet midi : List UInt8} {running : Option UInt8}

/-- What is said to be carried is what a reader finds. -/
theorem Carries.carried_eq (carries : Carries packet midi) : carried packet = midi := by
  cases carries with
  | none => rfl
  | begun marked reads =>
    have whole := reads []
    simpa [carried, marked, midiBytes] using whole

theorem isData_headerByte (time : Nat) : isData (headerByte time) = false := by
  have notLow : ¬ headerByte time < 0x80 := by
    rw [UInt8.lt_iff_toNat_lt, toNat_headerByte]
    simp
  simpa [← isData_iff] using notLow

/-- More has been added to a packet, which has been begun before if need be. -/
theorem Carries.add {more others : List UInt8} (carries : Carries packer.bytes midi) (time : Nat)
    (reads : Reads more others) : Carries (packer.opened time ++ more) (midi ++ others) := by
  unfold Packer.opened Packer.isEmpty
  revert carries
  generalize packer.bytes = bytes
  rintro (_ | ⟨marked, before⟩)
  · exact .begun (isData_headerByte time) reads
  · exact .begun marked (before.append reads)

namespace Packer

/-- A status byte that the packer may leave out is the running status of the reader. -/
def Agrees (packer : Packer) (running : Option UInt8) : Prop :=
  packer.runningStatus = 0 ∨ running = some packer.runningStatus

theorem agrees_reset (packer : Packer) (running : Option UInt8) : packer.reset.Agrees running :=
  .inl rfl

/-! ## Messages in one packet -/

/-- The data bytes of a channel message are below the status bytes. -/
theorem channelData_low {message : ChannelMessage} (formed : message.WellFormed) :
    ∀ byte ∈ message.dataBytes, ByteClass.of byte = .data := by
  intro byte member
  unfold ChannelMessage.dataBytes at member
  split at member
  · simp only [List.mem_cons, List.not_mem_nil, or_false] at member
    rcases member with rfl | rfl
    · exact formed.data1
    · exact formed.data2
  · obtain rfl := List.mem_singleton.mp member
    exact formed.data1

/-- The data bytes of a common message are below the status bytes. -/
theorem commonData_low {message : CommonMessage} (formed : message.WellFormed) :
    ∀ byte ∈ message.dataBytes, ByteClass.of byte = .data := by
  intro byte member
  have among : byte ∈ [message.data1, message.data2] := List.mem_of_mem_take member
  simp only [List.mem_cons, List.not_mem_nil, or_false] at among
  rcases among with rfl | rfl
  · exact formed.data1
  · exact formed.data2

/-- A channel message adds bytes that spell it behind the running status of the reader. -/
theorem addChannel_carries {message : ChannelMessage} {time : Nat}
    (added : packer.addChannel message time = (next, true)) (formed : message.WellFormed)
    (carries : Carries packer.bytes midi) (agrees : packer.Agrees running) :
    ∃ bytes, Stream.Decoder.Spells running (.channel message) bytes ∧
      Carries next.bytes (midi ++ bytes) ∧ next.Agrees (some message.header) := by
  have low := channelData_low formed
  have some_ : message.dataBytes ≠ [] := by
    unfold ChannelMessage.dataBytes
    split <;> simp
  rw [addChannel_eq, ite_eq_true_iff] at added
  obtain ⟨-, rfl⟩ := added
  by_cases repeats : message.header = packer.runningStatus
  · have nonzero : packer.runningStatus ≠ 0 := repeats ▸ ne_zero_of_channelStatus formed.header
    have same : running = some message.header := by
      rw [repeats]
      exact agrees.resolve_left nonzero
    refine ⟨message.dataBytes, .inr ⟨same, rfl⟩, ?_, .inr rfl⟩
    by_cases early : timeByte time = packer.runningTime
    · simp only [lead, repeats, early, if_true, List.nil_append]
      exact carries.add time (.data low)
    · simp only [lead, repeats, early, if_true, if_false]
      exact carries.add time (.time time some_ low)
  · refine ⟨message.header :: message.dataBytes, .inl rfl, ?_, .inr rfl⟩
    simp only [lead, repeats, if_false]
    exact carries.add time (.message time message.header low)

/-- A common message adds its status and its data. -/
theorem addCommon_carries {message : CommonMessage} {time : Nat}
    (added : packer.addCommon message time = (next, true)) (formed : message.WellFormed)
    (carries : Carries packer.bytes midi) (agrees : packer.Agrees running) :
    Carries next.bytes (midi ++ message.header :: message.dataBytes) ∧ next.Agrees running := by
  rw [addCommon_eq, ite_eq_true_iff] at added
  obtain ⟨-, rfl⟩ := added
  exact ⟨carries.add time (.message time message.header (commonData_low formed)), agrees⟩

/-- A real time message adds its one byte. -/
theorem addRealTime_carries {message : RealTimeMessage} {time : Nat}
    (added : packer.addRealTime message time = (next, true))
    (carries : Carries packer.bytes midi) (agrees : packer.Agrees running) :
    Carries next.bytes (midi ++ [message.byte]) ∧ next.Agrees running := by
  rw [addRealTime_eq, ite_eq_true_iff] at added
  obtain ⟨-, rfl⟩ := added
  exact ⟨carries.add time (.stamped time message.byte), agrees⟩

/-- A message that goes into a packet as a whole. -/
theorem addMessage_carries {message : Message} {time : Nat} {inside : Bool}
    (added : packer.addMessage message time = (next, true)) (fits : message.Fits inside)
    (whole : ∀ piece, message ≠ .sysEx piece)
    (carries : Carries packer.bytes midi) (agrees : packer.Agrees running) :
    ∃ bytes, Stream.Decoder.Spells running message bytes ∧
      Carries next.bytes (midi ++ bytes) ∧
      next.Agrees (Stream.Decoder.runningAfter true running message) := by
  cases message with
  | channel message => exact addChannel_carries added fits.2 carries agrees
  | common message => exact ⟨_, rfl, addCommon_carries added fits.2 carries agrees⟩
  | realTime message => exact ⟨_, rfl, addRealTime_carries added carries agrees⟩
  | sysEx piece => exact absurd rfl (whole piece)

/-! ## System exclusive messages -/

/-- Bytes that continue a system exclusive message: data bytes, and an end byte at most in
the last place. -/
inductive Continues : List UInt8 → Prop where
  | nothing : Continues []
  | upTo {front : List UInt8} {last : UInt8} (low : ∀ byte ∈ front, ByteClass.of byte = .data)
      (final : ByteClass.of last = .data ∨ last = sysExEnd) : Continues (front ++ [last])

/-- Data bytes continue a message, with an end byte behind them or without. -/
theorem continues_body {body : List UInt8} (low : ∀ byte ∈ body, ByteClass.of byte = .data)
    (ends : Bool) : Continues (body ++ if ends then [sysExEnd] else []) := by
  cases ends with
  | true => exact .upTo low (.inr rfl)
  | false =>
    rcases List.eq_nil_or_concat body with rfl | ⟨front, last, rfl⟩
    · exact .nothing
    · simp only [List.concat_eq_append, Bool.false_eq_true, if_false, List.append_nil] at low ⊢
      exact .upTo (fun byte member => low byte (by simp [member])) (.inl (low last (by simp)))

/-- The last byte of a piece is read as itself, with or without a timestamp. -/
theorem closing_reads {last : UInt8} (final : ByteClass.of last = .data ∨ last = sysExEnd)
    (time : Nat) : Reads (closing last time) [last] := by
  unfold closing
  split
  · exact .stamped time last
  · rename_i other
    have low := final.resolve_right other
    exact .data (by simpa using low)

/-- The bytes that are taken are in the packet, and the others are left. -/
theorem continueSysEx_carries {data : List UInt8} (time : Nat) (continues : Continues data)
    (carries : Carries packer.bytes midi) (silent : packer.runningStatus = 0) :
    ∃ taken, data = taken ++ (packer.continueSysEx data time).2 ∧
      Continues (packer.continueSysEx data time).2 ∧
      Carries (packer.continueSysEx data time).1.bytes (midi ++ taken) ∧
      (packer.continueSysEx data time).1.runningStatus = 0 := by
  cases continues with
  | nothing =>
    rw [continueSysEx_nil]
    refine ⟨[], rfl, .nothing, ?_, silent⟩
    simpa using carries.add time .nil
  | @upTo front last low final =>
    rw [continueSysEx_concat]
    dsimp only
    split
    · exact ⟨front ++ [last], by simp, .nothing,
        carries.add time ((Reads.data low).append (closing_reads final time)), silent⟩
    · have bounded := Nat.min_le_left front.length
        (packer.capacity.size - (packer.opened time).length)
      revert bounded
      generalize min front.length _ = count
      intro bounded
      rw [List.drop_append_of_le_length bounded]
      refine ⟨front.take count, ?_, ?_, ?_, silent⟩
      · rw [← List.append_assoc, List.take_append_drop]
      · exact .upTo (fun byte member => low byte (List.mem_of_mem_drop member)) final
      · exact carries.add time (.data fun byte member => low byte (List.mem_of_mem_take member))

/-- Data that continues a message has no start byte in front. -/
theorem Continues.head_ne {data : List UInt8} (continues : Continues data) :
    data.head? ≠ some sysExStart := by
  cases continues with
  | nothing => simp
  | @upTo front last low final =>
    intro start
    have kind : ByteClass.of sysExStart = .sysExStart := rfl
    cases front with
    | nil =>
      obtain rfl : last = sysExStart := by simpa using start
      rcases final with low | same
      · exact absurd (kind.symm.trans low) (by decide)
      · exact absurd same (by decide)
    | cons byte rest =>
      obtain rfl : byte = sysExStart := by simpa using start
      exact absurd (kind.symm.trans (low sysExStart (by simp))) (by decide)

/-- Behind a start byte no status byte may be left out. -/
theorem addSysEx_start_carries {data rest : List UInt8} {time : Nat}
    (added : packer.addSysEx (sysExStart :: data) time = ((next, rest), true))
    (continues : Continues data) (carries : Carries packer.bytes midi) :
    ∃ taken, sysExStart :: data = taken ++ rest ∧ Continues rest ∧
      Carries next.bytes (midi ++ taken) ∧ next.runningStatus = 0 := by
  rw [addSysEx_start, ite_eq_true_iff] at added
  obtain ⟨-, equation⟩ := added
  let started : Packer := { packer with
    bytes := packer.opened time ++ [timeByte time, sysExStart]
    runningStatus := 0 }
  have begun : Carries started.bytes (midi ++ [sysExStart]) :=
    carries.add time (.stamped time sysExStart)
  obtain ⟨taken, split, later, final, silent⟩ := continueSysEx_carries time continues begun rfl
  rw [equation] at split later final silent
  refine ⟨sysExStart :: taken, by simp [split], later, ?_, silent⟩
  simpa using final

/-- Of data that continues a message a part is added, and what is left can be continued with. -/
theorem addSysEx_rest_carries {data rest : List UInt8} {time : Nat}
    (added : packer.addSysEx data time = ((next, rest), true)) (continues : Continues data)
    (carries : Carries packer.bytes midi) (silent : packer.runningStatus = 0) :
    ∃ taken, data = taken ++ rest ∧ Continues rest ∧
      Carries next.bytes (midi ++ taken) ∧ next.runningStatus = 0 := by
  rw [addSysEx_rest continues.head_ne, ite_eq_true_iff] at added
  obtain ⟨-, equation⟩ := added
  have continued := continueSysEx_carries time continues carries silent
  rwa [equation] at continued

/-- A piece of a system exclusive message is added as far as it fits. -/
theorem addSysEx_carries {piece : SysExPiece} {time : Nat} {rest : List UInt8}
    (added : packer.addSysEx piece.data time = ((next, rest), true)) (formed : piece.WellFormed)
    (carries : Carries packer.bytes midi)
    (silent : piece.first = false → packer.runningStatus = 0) :
    ∃ taken, piece.data = taken ++ rest ∧ Continues rest ∧
      Carries next.bytes (midi ++ taken) ∧ next.runningStatus = 0 := by
  obtain ⟨body, low, spelled⟩ := formed
  have continues := continues_body low piece.last
  cases first : piece.first with
  | true =>
    rw [first, if_pos rfl, List.append_assoc, List.singleton_append] at spelled
    rw [spelled] at added ⊢
    exact addSysEx_start_carries added continues carries
  | false =>
    rw [first, if_neg Bool.false_ne_true, List.nil_append] at spelled
    rw [spelled] at added ⊢
    exact addSysEx_rest_carries added continues carries (silent first)

/-! ## Room in a new packet -/

/-- A new packet has room for its header and four bytes. -/
theorem fits_of_empty {amount : Nat} (empty : packer.bytes = []) (few : amount ≤ 4) :
    packer.fits (packer.headerLength + amount) = true := by
  have wide := packer.capacity.least_le_size
  simp [fits, spaceLeft, length, headerLength, isEmpty, empty]
  omega

/-- A packet that has not been begun has room for every message. -/
theorem addMessage_accepted {message : Message} (empty : packer.bytes = [])
    (whole : ∀ piece, message ≠ .sysEx piece) (time : Nat) :
    (packer.addMessage message time).2 = true := by
  cases message with
  | channel message =>
    have short : message.dataBytes.length ≤ 2 := by
      unfold ChannelMessage.dataBytes
      split <;> simp
    have few : (packer.lead message.header time).length ≤ 2 := by
      unfold lead
      split <;> (try split) <;> simp
    have room : packer.fits (packer.headerLength +
        (packer.lead message.header time ++ message.dataBytes).length) = true := by
      refine fits_of_empty empty ?_
      rw [List.length_append]
      omega
    simp [addMessage, addChannel_eq, -List.length_append, room]
  | common message =>
    have short : message.dataBytes.length ≤ 2 := by
      simp only [CommonMessage.dataBytes, List.length_take, List.length_cons, List.length_nil]
      omega
    have room : packer.fits (packer.headerLength + 2 + message.dataBytes.length) = true := by
      rw [Nat.add_assoc]
      exact fits_of_empty empty (by omega)
    simp [addMessage, addCommon, room]
  | realTime message =>
    have room : packer.fits (packer.headerLength + 2) = true := fits_of_empty empty (by decide)
    simp [addMessage, addRealTime, room]
  | sysEx piece => exact absurd rfl (whole piece)

/-- An empty packet takes some of any piece. -/
theorem addSysEx_accepted (empty : packer.bytes = []) (data : List UInt8) (time : Nat) :
    (packer.addSysEx data time).2 = true := by
  have room : packer.fits (packer.headerLength + 2) = true := fits_of_empty empty (by decide)
  have new : packer.isEmpty = true := by simp [isEmpty, empty]
  by_cases start : data.head? = some sysExStart
  · simp [addSysEx, start, room]
  · simp [addSysEx, start, new]

end Packer

end MidiTransport.Ble
