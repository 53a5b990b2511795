import MidiTransport.Proofs.Ble.Stamping

/-!
# The times of the messages in one packet

A packet that a packer assembles has all MIDI bytes that were added to it, and a reader hears
every message at its time, with one exception (`Packer.reports_pullAll_assemble`). The header of
a packet holds the upper part of its first time only. If the packet starts with the rest of a
system exclusive message, no lower part stands in front of it, and a reader that finds a lower
part further on cannot tell whether the upper part has moved on since. If it has, all times of
the packet are heard 128 too early (`Packer.drift`).
-/

namespace MidiTransport.Ble

/-! ## Assembling a packet -/

namespace Packer

/-- Add a message, or as much of a system exclusive message as fits. The answer holds what has
been added, if the message is not refused. -/
def take (packer : Packer) (message : Message) (time : Nat) : Packer × Option Message :=
  match message with
  | .sysEx piece =>
    let ((next, left), added) := packer.addSysEx piece.data time
    let taken := { piece with data := piece.data.take (piece.data.length - left.length) }
    (next, if added then some (.sysEx taken) else none)
  | message =>
    let (next, added) := packer.addMessage message time
    (next, if added then some message else none)

/-- Add messages, each with its time, and leave out those that are refused. The answer holds what
has been added. -/
def takeAll (packer : Packer) : List (Message × Nat) → Packer × List (Message × Nat)
  | [] => (packer, [])
  | (message, time) :: later =>
    match packer.take message time with
    | (next, none) => next.takeAll later
    | (next, some taken) => ((next.takeAll later).1, (taken, time) :: (next.takeAll later).2)

/-- Assemble a new packet, which may start with bytes that continue a system exclusive message. -/
def assemble (packer : Packer) (lead : Option (List UInt8 × Nat))
    (calls : List (Message × Nat)) : Packer × List (Message × Nat) :=
  match lead with
  | none => packer.reset.takeAll calls
  | some (data, time) =>
    let (next, left) := packer.reset.continueSysEx data time
    let taken : SysExPiece := ⟨data.take (data.length - left.length), .first, false, false⟩
    ((next.takeAll calls).1, (.sysEx taken, time) :: (next.takeAll calls).2)

end Packer

/-! ## What a reader should hear -/

/-- A MIDI byte, and the time at which it is to be heard, if that matters. -/
abbrev Mark := UInt8 × Option Nat

/-- The MIDI bytes of a message behind a running status. All of them are to be heard at the
message's time, except for the inner bytes of a system exclusive message. -/
def marksOf (running : Option UInt8) (time : Nat) : Message → List Mark
  | .channel message =>
    (if running = some message.header then message.dataBytes
      else message.header :: message.dataBytes).map (·, some time)
  | .common message => (message.header :: message.dataBytes).map (·, some time)
  | .realTime message => [(message.byte, some time)]
  | .sysEx piece =>
    piece.data.map fun byte =>
      (byte, if byte = sysExStart ∨ byte = sysExEnd then some time else none)

/-- The MIDI bytes of messages that are added one after the other. -/
def marks (running : Option UInt8) : List (Message × Nat) → List Mark
  | [] => []
  | (message, time) :: later =>
    marksOf running time message ++
      marks (Stream.Decoder.runningAfter true running message) later

/-- The times that are promised to a reader. -/
def promises (marks : List Mark) : List Nat := marks.filterMap Prod.snd

@[simp] theorem promises_append (front back : List Mark) :
    promises (front ++ back) = promises front ++ promises back :=
  List.filterMap_append

/-- A reader has heard the marked bytes, and each promised time later than promised by `drift`,
up to the period. -/
def Reports (drift : Nat) (told : List (UInt8 × Nat)) (marks : List Mark) : Prop :=
  List.Forall₂ (fun told mark =>
    told.1 = mark.1 ∧ ∀ time ∈ mark.2, told.2 = (time + drift) % timestampPeriod) told marks

/-- Times do not go back, and stay within 127 of the first one. -/
def Paced (times : List Nat) : Prop :=
  ∀ first ∈ times.head?, (∀ time ∈ times, lag first time < 128) ∧
    times.Pairwise fun earlier later => lag first earlier ≤ lag first later

/-- The clock of a reader that knows the upper part of one time and then the lower part of
another one is off by this. -/
def shift (first promise : Nat) : Nat :=
  if headerByte promise = headerByte first then 0 else timestampPeriod - 128

/-- By how much the times of a packet are off: the header holds the upper part of the first time,
and the first promise brings the first lower part. -/
def drift (added : List (Message × Nat)) : Nat :=
  match (added.map Prod.snd).head?, (promises (marks none added)).head? with
  | some first, some promise => shift first promise
  | _, _ => 0

/-! ## The clock of a reader -/

/-- A header tells times apart by the six bits above their lower seven. -/
theorem headerByte_eq_iff {time other : Nat} :
    headerByte time = headerByte other ↔ time / 128 % 64 = other / 128 % 64 := by
  rw [← UInt8.toNat_inj, toNat_headerByte, toNat_headerByte]
  omega

/-- A header gives the time back without its lower seven bits. -/
theorem headerTime_headerByte (time : Nat) :
    headerTime (headerByte time) = time / 128 % 64 * 128 := by
  simp only [headerTime, toNat_headerByte]
  omega

/-- A shift never changes the lower part of a time. -/
theorem shift_mod (first promise : Nat) : shift first promise % 128 = 0 := by
  rw [shift]
  split <;> rfl

/-- The header of the first time and the lower part of the first promise. -/
theorem add_shift {first promise : Nat} (close : lag first promise < 128) :
    (promise + shift first promise) % timestampPeriod =
      headerTime (headerByte first) + promise % 128 := by
  have period : timestampPeriod = 8192 := rfl
  rw [lag, period] at close
  rw [headerTime_headerByte, shift, period]
  split
  · rename_i same
    rw [headerByte_eq_iff] at same
    omega
  · rename_i other
    rw [headerByte_eq_iff] at other
    omega

/-- Distances from a common start subtract. -/
theorem lag_of_le {first earlier later : Nat} (order : lag first earlier ≤ lag first later) :
    lag earlier later = lag first later - lag first earlier := by
  simp only [lag, timestampPeriod, timestampMask] at order ⊢
  omega

/-- A clock that is off stays off by the same. -/
theorem advanceTime_shifted {first earlier later promise : Nat}
    (order : lag first earlier ≤ lag first later) (close : lag first later < 128) :
    advanceTime ((earlier + shift first promise) % timestampPeriod) (timeByte later) =
      (later + shift first promise) % timestampPeriod := by
  have aligned := shift_mod first promise
  have same : timeByte later = timeByte (later + shift first promise) :=
    timeByte_congr (by omega)
  have near := lag_of_le order
  rw [same]
  apply advanceTime_timeByte
  simp only [lag, timestampPeriod, timestampMask] at near close ⊢
  omega

/-- What a reader has heard of a packet whose first time is `first`. Its clock shows the upper part
of that time until the first promise, and from then on the last promised time with the same
shift. -/
inductive Course (first : Nat) : List (UInt8 × Nat) → List Mark → Nat → Option Nat → Prop where
  | waiting {told : List (UInt8 × Nat)} {marks : List Mark} (silent : promises marks = [])
      (reports : Reports 0 told marks) :
      Course first told marks (headerTime (headerByte first)) none
  | running {told : List (UInt8 × Nat)} {marks : List Mark} {promise last : Nat}
      (earliest : (promises marks).head? = some promise)
      (reports : Reports (shift first promise) told marks) :
      Course first told marks ((last + shift first promise) % timestampPeriod) (some last)

/-- The bytes are heard at `clock` where they are promised for `time`. -/
def Hears (time clock : Nat) (told : List (UInt8 × Nat)) (marks : List Mark) : Prop :=
  List.Forall₂ (fun told mark =>
    told.1 = mark.1 ∧ ∀ promise ∈ mark.2, promise = time ∧ told.2 = clock) told marks

/-- Bytes that are heard at a time that is off by a drift report that drift. -/
theorem Hears.reports {time clock drift : Nat} {told : List (UInt8 × Nat)} {marks : List Mark}
    (hears : Hears time clock told marks) (same : clock = (time + drift) % timestampPeriod) :
    Reports drift told marks := by
  apply List.Forall₂.imp _ hears
  rintro ⟨byte, heard⟩ mark ⟨equal, promised⟩
  refine ⟨equal, fun promise member => ?_⟩
  obtain ⟨rfl, there⟩ := promised promise member
  exact there.trans same

/-- What is heard one after the other is off by the same drift. -/
theorem Reports.append {drift : Nat} {told more : List (UInt8 × Nat)} {marks others : List Mark}
    (early : Reports drift told marks) (late : Reports drift more others) :
    Reports drift (told ++ more) (marks ++ others) :=
  List.rel_append early late

/-- Without promises only the bytes matter. -/
theorem Reports.of_silent {drift other : Nat} {told : List (UInt8 × Nat)} {marks : List Mark}
    (reports : Reports drift told marks) (silent : promises marks = []) :
    Reports other told marks := by
  induction reports with
  | nil => exact .nil
  | @cons heard mark told marks here rest ih =>
    obtain ⟨byte, promise?⟩ := mark
    cases promise? with
    | none => exact .cons ⟨here.1, by simp⟩ (ih silent)
    | some promise => simp [promises] at silent

/-- All that is heard at one time has been promised for that time. -/
theorem Hears.eq_of_mem {time clock promise : Nat} {told : List (UInt8 × Nat)}
    {marks : List Mark} (hears : Hears time clock told marks) (member : promise ∈ promises marks) :
    promise = time := by
  induction hears with
  | nil => cases member
  | @cons heard mark told marks here rest ih =>
    obtain ⟨byte, promise?⟩ := mark
    cases promise? with
    | none => exact ih member
    | some other =>
      rcases List.mem_cons.mp member with rfl | later
      · exact (here.2 promise rfl).1
      · exact ih later

/-- Bytes that are heard at one time, or whenever they do not matter, take the clock there. -/
theorem Course.hear {first time clock : Nat} {told more : List (UInt8 × Nat)}
    {marks new : List Mark} {last : Option Nat} (course : Course first told marks clock last)
    (close : lag first time < 128) (order : ∀ earlier ∈ last, lag first earlier ≤ lag first time)
    (hears : Hears time (advanceTime clock (timeByte time)) more new) :
    Course first (told ++ more) (marks ++ new)
      (if promises new = [] then clock else advanceTime clock (timeByte time))
      (if promises new = [] then last else some time) := by
  cases course with
  | waiting silent reports =>
    have moved : advanceTime (headerTime (headerByte first)) (timeByte time) =
        (time + shift first time) % timestampPeriod := by
      rw [advanceTime_headerTime, add_shift close, toNat_timeByte]
      omega
    have heard := hears.reports moved
    by_cases quiet : promises new = []
    · rw [if_pos quiet, if_pos quiet]
      exact .waiting (by simp [silent, quiet]) (reports.append (heard.of_silent quiet))
    · rw [if_neg quiet, if_neg quiet, moved]
      -- This is the first promise, and its shift is the one that stays.
      obtain ⟨promise, others, split⟩ := List.exists_cons_of_ne_nil quiet
      obtain rfl : promise = time := hears.eq_of_mem (by simp [split])
      exact .running (by simp [silent, split]) ((reports.of_silent silent).append heard)
  | @running promise last earliest reports =>
    have moved : advanceTime ((last + shift first promise) % timestampPeriod) (timeByte time) =
        (time + shift first promise) % timestampPeriod :=
      advanceTime_shifted (order last rfl) close
    have heard := hears.reports moved
    have still : (promises (marks ++ new)).head? = some promise := by
      simp [List.head?_append, earliest]
    by_cases quiet : promises new = []
    · rw [if_pos quiet, if_pos quiet]
      exact .running still (reports.append heard)
    · rw [if_neg quiet, if_neg quiet, moved]
      exact .running still (reports.append heard)

/-! ## Adding to a packet -/

/-- Bytes with times of their own are heard as promised if each single one is. -/
theorem hears_map {time clock : Nat} {bytes : List UInt8} {heard : UInt8 → Nat}
    {promised : UInt8 → Option Nat}
    (same : ∀ byte ∈ bytes, ∀ promise ∈ promised byte, promise = time ∧ heard byte = clock) :
    Hears time clock (bytes.map fun byte => (byte, heard byte))
      (bytes.map fun byte => (byte, promised byte)) := by
  induction bytes with
  | nil => exact .nil
  | cons byte rest ih =>
    exact .cons ⟨rfl, same byte (by simp)⟩ (ih fun other member => same other (by simp [member]))

/-- Bytes of a message that is not system exclusive promise a time each. -/
theorem promises_map_some {bytes : List UInt8} {time : Nat} :
    promises (bytes.map (·, some time)) = [] ↔ bytes = [] := by
  cases bytes <;> simp [promises]

namespace Packer

variable {packer next : Packer} {told : List (UInt8 × Nat)} {clock time : Nat}
  {running : Option UInt8}

/-- The status that the packer may leave out is the running status of the added bytes. -/
def Recalls (packer : Packer) (running : Option UInt8) : Prop :=
  ∀ header, ByteClass.of header = .channelStatus →
    (running = some header ↔ header = packer.runningStatus)

/-- A packer without a status to leave out recalls that there is none. -/
theorem recalls_none (silent : packer.runningStatus = 0) : packer.Recalls none := by
  intro header kind
  simp [silent, ne_zero_of_channelStatus kind]

/-- Where a system exclusive message may be continued, no status may be left out. -/
def Quiet (packer : Packer) : Prop :=
  packer.bytes = [] ∨ packer.sysExOpen = true → packer.runningStatus = 0

/-- The packer has taken a message: a reader hears it at its time, and the clock has moved there if
that was promised. -/
structure Takes (packer next : Packer) (told : List (UInt8 × Nat)) (clock time : Nat)
    (running : Option UInt8) (taken : Message) : Prop where
  heard : ∃ more,
    next.Tracks next.bytes (told ++ more)
        (if promises (marksOf running time taken) = [] then clock
          else advanceTime clock (timeByte time)) ∧
      Hears time (advanceTime clock (timeByte time)) more (marksOf running time taken)
  recalls : next.Recalls (Stream.Decoder.runningAfter true running taken)
  quiet : next.Quiet

/-- What a packer spells for a message is what the message asks to be heard. -/
theorem marksOf_whole {message : Message} {inside : Bool} (fits : message.Fits inside)
    (whole : ∀ piece, message ≠ .sysEx piece) (recalls : packer.Recalls running) (time : Nat) :
    marksOf running time message = (packer.spelling message).map (·, some time) := by
  cases message with
  | channel message =>
    have same := recalls message.header fits.2.header
    simp only [marksOf, spelling, same]
  | common message => rfl
  | realTime message => rfl
  | sysEx piece => exact absurd rfl (whole piece)

/-- No message is spelled by nothing. -/
theorem spelling_ne_nil (packer : Packer) {message : Message}
    (whole : ∀ piece, message ≠ .sysEx piece) : packer.spelling message ≠ [] := by
  cases message with
  | channel message =>
    dsimp only [spelling]
    split
    · exact channelData_ne_nil message
    · simp
  | common message => simp [spelling]
  | realTime message => simp [spelling]
  | sysEx piece => exact absurd rfl (whole piece)

/-- A channel, common or real time message is heard at its time behind the bytes before it. -/
theorem addMessage_takes {message : Message} {inside : Bool}
    (added : packer.addMessage message time = (next, true)) (fits : message.Fits inside)
    (whole : ∀ piece, message ≠ .sysEx piece)
    (tracks : packer.Tracks (packer.opened time) told clock) (recalls : packer.Recalls running)
    (quiet : packer.Quiet) : packer.Takes next told clock time running message := by
  have marked := marksOf_whole fits whole recalls time
  have after := addMessage_tracks added fits whole tracks
  obtain ⟨status, still⟩ := addMessage_status added whole
  constructor
  · refine ⟨(packer.spelling message).map (·, advanceTime clock (timeByte time)), ?_, ?_⟩
    · rw [marked, if_neg (by simp [promises_map_some, packer.spelling_ne_nil whole])]
      exact after
    · rw [marked]
      apply hears_map
      rintro byte - promise ⟨⟩
      exact ⟨rfl, rfl⟩
  · intro header kind
    rw [status]
    cases message with
    | channel message => simp [Stream.Decoder.runningAfter, statusAfter, eq_comm]
    | common message => exact recalls header kind
    | realTime message => exact recalls header kind
    | sysEx piece => exact absurd rfl (whole piece)
  · rintro (empty | open_)
    · exact absurd empty after.ne_nil
    · obtain ⟨before, same⟩ := still open_
      rw [same]
      exact quiet (.inr before)

/-- The part that is taken of a piece. -/
theorem take_of_split {data taken left : List UInt8} (split : data = taken ++ left) :
    data.take (data.length - left.length) = taken := by
  subst split
  simp

/-- Only the first and the last byte of a system exclusive message promise a time. -/
theorem promises_sysEx {piece : SysExPiece} :
    promises (marksOf running time (.sysEx piece)) = [] ↔
      sysExStart ∉ piece.data ∧ sysExEnd ∉ piece.data := by
  rw [marksOf, promises, List.filterMap_eq_nil_iff]
  constructor
  · intro silent
    constructor
    all_goals
      intro member
      have mark := silent _ (List.mem_map_of_mem member)
      simp at mark
  · rintro ⟨noStart, noEnd⟩ mark member
    obtain ⟨byte, inside, rfl⟩ := List.mem_map.mp member
    have other : ¬ (byte = sysExStart ∨ byte = sysExEnd) := by
      rintro (rfl | rfl)
      · exact noStart inside
      · exact noEnd inside
    simp [other]

/-- Data that continues a message does not start another one. -/
theorem Continues.no_start {data : List UInt8} (continues : Continues data) :
    sysExStart ∉ data := by
  cases continues with
  | nothing => simp
  | @upTo front last low final =>
    intro member
    rcases List.mem_append.mp member with inner | outer
    · exact absurd (low _ inner) (by decide)
    · obtain rfl := List.mem_singleton.mp outer
      exact absurd final (by decide)

/-- A system exclusive message goes on with these bytes, of which only an end byte has a time. -/
theorem takes_continued {piece : SysExPiece} (noStart : sysExStart ∉ piece.data)
    (tracks : next.Tracks next.bytes
      (told ++ continued clock (advanceTime clock (timeByte time)) piece.data)
      (clockBehind clock (advanceTime clock (timeByte time)) piece.data))
    (silent : next.runningStatus = 0) :
    packer.Takes next told clock time running (.sysEx piece) := by
  refine ⟨⟨continued clock (advanceTime clock (timeByte time)) piece.data, ?_, ?_⟩,
    recalls_none silent, fun _ => silent⟩
  · have behind : (if promises (marksOf running time (.sysEx piece)) = [] then clock
          else advanceTime clock (timeByte time)) =
        clockBehind clock (advanceTime clock (timeByte time)) piece.data := by
      rw [clockBehind]
      by_cases ends : sysExEnd ∈ piece.data
      · rw [if_pos ends, if_neg (by simp [promises_sysEx, ends])]
      · rw [if_neg ends, if_pos (promises_sysEx.mpr ⟨noStart, ends⟩)]
    rw [behind]
    exact tracks
  · apply hears_map
    intro byte member promise promised
    have other : byte ≠ sysExStart := by
      rintro rfl
      exact noStart member
    by_cases ends : byte = sysExEnd
    · simp_all
    · simp [other, ends] at promised

/-- A system exclusive message starts, and all that is taken is heard at its time. -/
theorem takes_started {piece : SysExPiece} (starts : sysExStart ∈ piece.data)
    (tracks : next.Tracks next.bytes
      (told ++ piece.data.map (·, advanceTime clock (timeByte time)))
      (advanceTime clock (timeByte time)))
    (silent : next.runningStatus = 0) :
    packer.Takes next told clock time running (.sysEx piece) := by
  refine ⟨⟨piece.data.map (·, advanceTime clock (timeByte time)), ?_, ?_⟩,
    recalls_none silent, fun _ => silent⟩
  · rw [if_neg (by simp [promises_sysEx, starts])]
    exact tracks
  · apply hears_map
    intro byte member promise promised
    split at promised
    · cases promised
      exact ⟨rfl, rfl⟩
    · cases promised

/-- The part of a piece that is taken is heard behind the bytes before it. -/
theorem addSysEx_takes {piece : SysExPiece} {left : List UInt8} (formed : piece.WellFormed)
    (added : packer.addSysEx piece.data time = ((next, left), true))
    (tracks : packer.Tracks (packer.opened time) told clock) (quiet : packer.Quiet) :
    packer.Takes next told clock time running
      (.sysEx { piece with data := piece.data.take (piece.data.length - left.length) }) := by
  obtain ⟨body, low, spelled⟩ := formed
  have continues := continues_body low piece.last
  cases first : piece.first with
  | true =>
    rw [first, if_pos rfl, List.append_assoc, List.singleton_append] at spelled
    rw [spelled] at added
    obtain ⟨taken, split, later, after, silent⟩ := addSysEx_start_tracks added continues tracks
    -- What is left has no start byte, so it has been taken.
    have starts : sysExStart ∈ taken := by
      have among : sysExStart ∈ taken ++ left := by simp [← split]
      exact (List.mem_append.mp among).resolve_right later.no_start
    rw [spelled, take_of_split split]
    exact takes_started starts after silent
  | false =>
    rw [first, if_neg Bool.false_ne_true, List.nil_append] at spelled
    rw [spelled] at added
    have before : packer.runningStatus = 0 := by
      apply quiet
      rw [addSysEx_rest continues.head_ne, ite_eq_true_iff] at added
      cases bytes : packer.bytes with
      | nil => exact .inl rfl
      | cons => simpa [isEmpty, bytes] using added.1
    obtain ⟨taken, split, later, after, silent⟩ :=
      addSysEx_rest_tracks added continues tracks before
    have noStart : sysExStart ∉ taken := by
      intro member
      exact continues.no_start (by rw [split]; exact List.mem_append_left _ member)
    rw [spelled, take_of_split split]
    exact takes_continued noStart after silent

/-- Channel, common and real time messages are taken as a whole. -/
theorem take_of_whole {message : Message} (whole : ∀ piece, message ≠ .sysEx piece) (time : Nat) :
    packer.take message time =
      ((packer.addMessage message time).1,
        if (packer.addMessage message time).2 then some message else none) := by
  cases message with
  | sysEx piece => exact absurd rfl (whole piece)
  | _ => rfl

/-- A message that is refused leaves the packer alone. -/
theorem take_refused {message : Message} (refused : packer.take message time = (next, none)) :
    next = packer := by
  by_cases whole : ∀ piece, message ≠ .sysEx piece
  · rw [take_of_whole whole] at refused
    rcases answer : packer.addMessage message time with ⟨other, _ | _⟩ <;> rw [answer] at refused
    · obtain rfl := addMessage_refused answer
      exact (Prod.mk.inj refused).1.symm
    · cases refused
  · obtain ⟨piece, rfl⟩ : ∃ piece, message = .sysEx piece := by simpa using whole
    simp only [take] at refused
    rcases answer : packer.addSysEx piece.data time with ⟨⟨other, left⟩, _ | _⟩ <;>
      rw [answer] at refused
    · obtain ⟨rfl, -⟩ := addSysEx_refused answer
      exact (Prod.mk.inj refused).1.symm
    · cases refused

/-- Whatever has been taken of a message is heard at its time. -/
theorem take_takes {message taken : Message} {inside : Bool}
    (added : packer.take message time = (next, some taken)) (fits : message.Fits inside)
    (tracks : packer.Tracks (packer.opened time) told clock) (recalls : packer.Recalls running)
    (quiet : packer.Quiet) : packer.Takes next told clock time running taken := by
  by_cases whole : ∀ piece, message ≠ .sysEx piece
  · rw [take_of_whole whole] at added
    rcases answer : packer.addMessage message time with ⟨other, _ | _⟩ <;> rw [answer] at added
    · cases added
    · obtain ⟨rfl, same⟩ := Prod.mk.inj added
      obtain rfl : message = taken := by simpa using same
      exact addMessage_takes answer fits whole tracks recalls quiet
  · obtain ⟨piece, rfl⟩ : ∃ piece, message = .sysEx piece := by simpa using whole
    simp only [take] at added
    rcases answer : packer.addSysEx piece.data time with ⟨⟨other, left⟩, _ | _⟩ <;>
      rw [answer] at added
    · cases added
    · obtain ⟨rfl, same⟩ := Prod.mk.inj added
      obtain rfl := Option.some.inj same
      exact addSysEx_takes fits.2 answer tracks quiet

/-! ## The whole packet -/

/-- The times of what has been added. -/
def timesOf (added : List (Message × Nat)) : List Nat := added.map Prod.snd

/-- The packer has added these bytes to a packet whose first time is `first`. -/
structure Progress (packer : Packer) (packet : List UInt8) (first : Nat) (marked : List Mark)
    (last : Option Nat) (running : Option UInt8) : Prop where
  heard : ∃ told clock, packer.Tracks packet told clock ∧ Course first told marked clock last
  recalls : packer.Recalls running
  quiet : packer.Quiet

variable {first : Nat} {marked : List Mark} {last : Option Nat}

/-- A new packet gets its header with its first time. -/
theorem progress_reset (packer : Packer) (first : Nat) :
    packer.reset.Progress (packer.reset.opened first) first [] none none where
  heard := ⟨[], headerTime (headerByte first), tracks_of_nil rfl rfl first, .waiting rfl .nil⟩
  recalls := recalls_none rfl
  quiet _ := rfl

/-- A message that is taken within the reach of the first time is heard with all before it. -/
theorem Takes.progress {taken : Message} (takes : packer.Takes next told clock time running taken)
    (course : Course first told marked clock last) (close : lag first time < 128)
    (order : ∀ earlier ∈ last, lag first earlier ≤ lag first time) :
    next.Progress next.bytes first (marked ++ marksOf running time taken)
      (if promises (marksOf running time taken) = [] then last else some time)
      (Stream.Decoder.runningAfter true running taken) := by
  obtain ⟨more, tracks, hears⟩ := takes.heard
  exact ⟨⟨_, _, tracks, course.hear close order hears⟩, takes.recalls, takes.quiet⟩

/-- A packet under way does not depend on the next time. -/
theorem Progress.opened (progress : packer.Progress packer.bytes first marked last running)
    (time : Nat) : packer.Progress (packer.opened time) first marked last running := by
  obtain ⟨⟨told, clock, tracks, course⟩, recalls, quiet⟩ := progress
  exact ⟨⟨told, clock, tracks.opened time, course⟩, recalls, quiet⟩

/-- A packet that something has been added to is not empty. -/
theorem Progress.ne_nil (progress : packer.Progress packer.bytes first marked last running) :
    packer.bytes ≠ [] := by
  obtain ⟨told, clock, tracks, -⟩ := progress.heard
  exact tracks.ne_nil

/-- Whatever has been taken on the way, all of it has been heard. -/
theorem Progress.takeAll {calls : List (Message × Nat)}
    (progress : packer.Progress (packer.opened first) first marked last running)
    (formed : ∀ call ∈ calls, ∃ inside, call.1.Fits inside)
    (opens : packer.bytes = [] → ∀ time ∈ (timesOf (packer.takeAll calls).2).head?, time = first)
    (close : ∀ time ∈ timesOf (packer.takeAll calls).2, lag first time < 128)
    (order : ∀ earlier ∈ last, ∀ time ∈ timesOf (packer.takeAll calls).2,
      lag first earlier ≤ lag first time)
    (sorted : (timesOf (packer.takeAll calls).2).Pairwise
      fun earlier later => lag first earlier ≤ lag first later) :
    ∃ final after, (packer.takeAll calls).1.Progress ((packer.takeAll calls).1.opened first) first
      (marked ++ marks running (packer.takeAll calls).2) final after := by
  induction calls generalizing packer marked last running with
  | nil => exact ⟨last, running, by simpa [Packer.takeAll, marks] using progress⟩
  | cons call later ih =>
    obtain ⟨message, time⟩ := call
    have others : ∀ call ∈ later, ∃ inside, call.1.Fits inside :=
      fun call member => formed call (by simp [member])
    obtain ⟨inside, fits⟩ := formed (message, time) (by simp)
    simp only [Packer.takeAll] at opens close order sorted ⊢
    split at opens
    · rename_i refused
      simp only [refused] at opens close order sorted ⊢
      obtain rfl := take_refused refused
      exact ih progress others opens close order sorted
    · rename_i next taken added
      simp only [added, timesOf, List.map_cons, List.head?_cons, List.pairwise_cons,
        List.forall_mem_cons] at opens close order sorted ⊢
      -- Only the first message that is taken can find the packet without its header.
      have same : packer.opened time = packer.opened first := by
        by_cases empty : packer.bytes = []
        · rw [opens empty time rfl]
        · rw [opened_of_ne_nil empty, opened_of_ne_nil empty]
      obtain ⟨⟨told, clock, tracks, course⟩, recalls, quiet⟩ := progress
      have here := (take_takes added fits (same ▸ tracks) recalls quiet).progress course
        close.1 (fun earlier member => (order earlier member).1)
      have further : ∀ earlier ∈ (if promises (marksOf running time taken) = [] then last
          else some time), ∀ other ∈ timesOf (next.takeAll later).2,
            lag first earlier ≤ lag first other := by
        intro earlier member
        split at member
        · exact (order earlier member).2
        · cases member
          exact sorted.1
      have begun : next.bytes = [] →
          ∀ other ∈ (timesOf (next.takeAll later).2).head?, other = first :=
        fun empty => absurd empty here.ne_nil
      obtain ⟨final, after, done⟩ :=
        ih (here.opened first) others begun close.2 further sorted.2
      rw [List.append_assoc] at done
      exact ⟨final, after, done⟩

/-- A packet that starts with the rest of a system exclusive message. -/
theorem progress_lead {data : List UInt8} (continues : Continues data) (packer : Packer)
    (time : Nat) {piece : SysExPiece}
    (part : piece.data =
      data.take (data.length - (packer.reset.continueSysEx data time).2.length)) :
    (packer.reset.continueSysEx data time).1.Progress
      (packer.reset.continueSysEx data time).1.bytes time (marksOf none time (.sysEx piece))
      (if promises (marksOf none time (.sysEx piece)) = [] then none else some time) none := by
  obtain ⟨told, clock, tracks, course⟩ := (progress_reset packer time).heard
  obtain ⟨taken, split, -, after, silent⟩ := continueSysEx_tracks continues tracks rfl
  rw [take_of_split split] at part
  have noStart : sysExStart ∉ piece.data := by
    rw [part]
    intro member
    exact continues.no_start (by rw [split]; exact List.mem_append_left _ member)
  have close : lag time time < 128 := by
    simp only [lag, timestampPeriod, timestampMask]
    omega
  cases course with
  | waiting nothing reports =>
    have takes : packer.reset.Takes (packer.reset.continueSysEx data time).1 told
        (headerTime (headerByte time)) time none (.sysEx piece) := by
      apply takes_continued noStart _ silent
      rw [part]
      exact after
    have course : Course time told [] (headerTime (headerByte time)) none :=
      .waiting nothing reports
    exact takes.progress course close (by simp)

/-- A reader has heard of a whole packet what has been added to it. -/
theorem assemble_progress {lead : Option (List UInt8 × Nat)} {calls : List (Message × Nat)}
    (packer : Packer) (leads : ∀ start ∈ lead, Continues start.1)
    (formed : ∀ call ∈ calls, ∃ inside, call.1.Fits inside)
    (paced : Paced (timesOf (packer.assemble lead calls).2)) :
    ∃ first last running,
      (∀ time ∈ (timesOf (packer.assemble lead calls).2).head?, time = first) ∧
      (packer.assemble lead calls).1.Progress ((packer.assemble lead calls).1.opened first) first
        (marks none (packer.assemble lead calls).2) last running := by
  cases lead with
  | none =>
    simp only [assemble] at paced ⊢
    cases times : timesOf (packer.reset.takeAll calls).2 with
    | nil =>
      obtain ⟨last, running, done⟩ := (progress_reset packer 0).takeAll formed
        (by simp [times]) (by simp [times]) (by simp) (by simp [times])
      exact ⟨0, last, running, by simp, done⟩
    | cons first others =>
      rw [times] at paced
      obtain ⟨close, sorted⟩ := paced first rfl
      obtain ⟨last, running, done⟩ := (progress_reset packer first).takeAll formed
        (by simp [times]) (by rwa [times]) (by simp) (by rwa [times])
      exact ⟨first, last, running, by simp, done⟩
  | some start =>
    obtain ⟨data, time⟩ := start
    have continues : Continues data := leads (data, time) rfl
    simp only [assemble, timesOf, List.map_cons] at paced ⊢
    obtain ⟨close, sorted⟩ := paced time rfl
    rw [List.forall_mem_cons] at close
    rw [List.pairwise_cons] at sorted
    let piece : SysExPiece :=
      ⟨data.take (data.length - (packer.reset.continueSysEx data time).2.length), .first, false,
        false⟩
    have part : piece.data =
        data.take (data.length - (packer.reset.continueSysEx data time).2.length) := rfl
    have begun := progress_lead continues packer time part
    obtain ⟨last, running, done⟩ := (begun.opened time).takeAll formed
      (fun empty => absurd empty begun.ne_nil) close.2
      (fun earlier member => by
        split at member
        · cases member
        · cases member
          exact sorted.1)
      sorted.2
    exact ⟨time, last, running, by simp, done⟩

end Packer

/-- The header alone brings no MIDI bytes. -/
theorem timed_opened (packer : Packer) (time : Nat) :
    timed (packer.opened time) = timed packer.bytes := by
  by_cases empty : packer.bytes = []
  · rw [Packer.opened_of_nil empty, empty]
    simp [timed, clocked]
  · rw [Packer.opened_of_ne_nil empty]

/-- A promised time cannot be heard with two shifts. -/
theorem Reports.unique {drift other promise : Nat} {told : List (UInt8 × Nat)} {marks : List Mark}
    (reports : Reports drift told marks) (also : Reports other told marks)
    (member : promise ∈ promises marks) :
    (promise + drift) % timestampPeriod = (promise + other) % timestampPeriod := by
  induction reports with
  | nil => cases member
  | @cons heard mark told marks here rest ih =>
    obtain ⟨byte, promise?⟩ := mark
    cases also with
    | cons there remains =>
      cases promise? with
      | none => exact ih remains member
      | some first =>
        rcases List.mem_cons.mp member with rfl | later
        · exact (here.2 promise rfl).symm.trans (there.2 promise rfl)
        · exact ih remains later

/-- Behind the whole packet the shift of the first promise is the drift. -/
theorem Course.reports_drift {first clock : Nat} {told : List (UInt8 × Nat)}
    {added : List (Message × Nat)} {last : Option Nat}
    (course : Course first told (marks none added) clock last)
    (same : ∀ time ∈ (Packer.timesOf added).head?, time = first) :
    Reports (drift added) told (marks none added) := by
  cases course with
  | waiting silent reports => exact reports.of_silent silent
  | @running promise last earliest reports =>
    cases added with
    | nil => cases earliest
    | cons entry later =>
      obtain rfl : entry.2 = first := same entry.2 rfl
      have shifted : drift (entry :: later) = shift entry.2 promise := by
        rw [drift, earliest]
        rfl
      rw [shifted]
      exact reports

/-- The times are right only if nothing shifts them. -/
theorem Reports.drift_eq_zero {told : List (UInt8 × Nat)} {added : List (Message × Nat)}
    (reports : Reports (drift added) told (marks none added))
    (right : Reports 0 told (marks none added)) : drift added = 0 := by
  cases firsts : (added.map Prod.snd).head? with
  | none => rw [drift, firsts]
  | some first =>
    cases earliest : (promises (marks none added)).head? with
    | none => rw [drift, firsts, earliest]
    | some promise =>
      have member : promise ∈ promises (marks none added) := List.mem_of_mem_head? earliest
      have same := reports.unique right member
      have shifted : drift added = shift first promise := by rw [drift, firsts, earliest]
      rw [shifted] at same ⊢
      have period : timestampPeriod = 8192 := rfl
      rw [shift, period] at same ⊢
      split at same
      · rename_i equal
        rw [if_pos equal]
      · omega

namespace Packer

/-- A reader of a packet pulls exactly the MIDI bytes that were added to it, and hears all messages
at their times if the upper part of the first promised time is that of the packet's first time.
If it is not, then all promised times are heard 128 too early. This takes a packet that starts
with the rest of a system exclusive message. -/
theorem reports_pullAll_assemble (cursor : Cursor) (packer : Packer)
    (lead : Option (List UInt8 × Nat)) (calls : List (Message × Nat))
    (leads : ∀ start ∈ lead, Continues start.1)
    (formed : ∀ call ∈ calls, ∃ inside, call.1.Fits inside)
    (paced : Paced (timesOf (packer.assemble lead calls).2)) :
    let packet := (packer.assemble lead calls).1.bytes
    let added := (packer.assemble lead calls).2
    let told := ((cursor.beginPacket packet).1.pullAll packet).1
    Reports (drift added) told (marks none added) ∧
      (Reports 0 told (marks none added) ↔ drift added = 0) := by
  intro packet added told
  have heard : told = timed packet := cursor.pullAll_beginPacket packet
  obtain ⟨first, last, running, same, ⟨⟨others, clock, tracks, course⟩, -, -⟩⟩ :=
    assemble_progress packer leads formed paced
  have all : told = others := by
    rw [heard, ← timed_opened _ first]
    exact tracks.shown.timed_eq
  have reports : Reports (drift added) told (marks none added) := by
    rw [all]
    exact course.reports_drift same
  refine ⟨reports, reports.drift_eq_zero, fun right => ?_⟩
  rwa [right] at reports

/-- A packet that starts with the rest of a message. The upper part of the time moves on behind
the first promise. -/
def carryingCalls : List (Message × Nat) :=
  [(.channel ⟨0x90, 0x40, 0x41, .first⟩, 127), (.channel ⟨0x90, 0x42, 0x43, .first⟩, 130),
    (.realTime ⟨0xF8, .first⟩, 200)]

/-- Nothing is off here: the end byte of the message in front promises the time that the header has.
-/
theorem reports_pullAll_assemble_carrying :
    Reports 0
      ((Cursor.initial.beginPacket
          ((initial .default).assemble (some ([0x01, 0xF7], 100)) carryingCalls).1.bytes).1.pullAll
        ((initial .default).assemble (some ([0x01, 0xF7], 100)) carryingCalls).1.bytes).1
      [(0x01, none), (0xF7, some 100), (0x90, some 127), (0x40, some 127), (0x41, some 127),
        (0x42, some 130), (0x43, some 130), (0xF8, some 200)] := by
  have leads : ∀ start ∈ some (([0x01, 0xF7] : List UInt8), 100), Continues start.1 := by
    rintro start ⟨⟩
    have low : ∀ byte ∈ ([0x01] : List UInt8), ByteClass.of byte = .data := by decide +kernel
    exact continues_body low true
  have formed : ∀ call ∈ carryingCalls, ∃ inside, call.1.Fits inside := by
    intro call member
    refine ⟨false, ?_⟩
    simp only [carryingCalls, List.mem_cons, List.not_mem_nil, or_false] at member
    rcases member with rfl | rfl | rfl
    · exact ⟨rfl, by decide⟩
    · exact ⟨rfl, by decide⟩
    · rfl
  have paced : Paced (timesOf ((initial .default).assemble (some ([0x01, 0xF7], 100))
      carryingCalls).2) := by
    unfold Paced
    decide +kernel
  have right := (reports_pullAll_assemble .initial (initial .default) _ _ leads formed paced).2.mpr
    (by decide +kernel)
  have marked : marks none ((initial .default).assemble (some ([0x01, 0xF7], 100))
      carryingCalls).2 = [(0x01, none), (0xF7, some 100), (0x90, some 127), (0x40, some 127),
        (0x41, some 127), (0x42, some 130), (0x43, some 130), (0xF8, some 200)] := by
    decide +kernel
  rwa [marked] at right

/-- The upper part moves on in front of the first promise, and a clock byte at 130 is heard
at 2. -/
theorem reports_pullAll_assemble_early :
    Paced (timesOf ((initial .default).assemble (some ([0x01, 0x02], 100))
        [(.realTime ⟨0xF8, .first⟩, 130)]).2) ∧
      ((initial .default).assemble (some ([0x01, 0x02], 100))
        [(.realTime ⟨0xF8, .first⟩, 130)]).1.bytes = [0x80, 0x01, 0x02, 0x82, 0xF8] ∧
      marks none ((initial .default).assemble (some ([0x01, 0x02], 100))
        [(.realTime ⟨0xF8, .first⟩, 130)]).2 =
          [(0x01, none), (0x02, none), (0xF8, some 130)] ∧
      ((Cursor.initial.beginPacket [0x80, 0x01, 0x02, 0x82, 0xF8]).1.pullAll
        [0x80, 0x01, 0x02, 0x82, 0xF8]).1 = [(0x01, 0), (0x02, 0), (0xF8, 2)] ∧
      ¬ Reports 0 [(0x01, 0), (0x02, 0), (0xF8, 2)]
        [(0x01, none), (0x02, none), (0xF8, some 130)] := by
  unfold Paced Reports
  decide +kernel

end Packer

end MidiTransport.Ble
