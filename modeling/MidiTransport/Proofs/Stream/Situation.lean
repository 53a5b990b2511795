import MidiTransport.Proofs.Stream.Feeding
import MidiTransport.Proofs.SysEx.Pieces

/-!
# What a decoder does with the bytes of one message

Whatever a decoder has read, it stands in one of two situations as far as further bytes
are concerned: between messages, where only the running status matters, or inside a
system exclusive message, where the bytes collected since the last piece matter. The
theorems of this module take one situation to the next over the bytes of one message
and name what is found on the way.
-/

namespace MidiTransport.Stream.Decoder

open SysEx (Assembly)

variable {decoder : Decoder} {running : Option UInt8} {header status : UInt8}

/-- No system exclusive message is open, and this is the running status. A message
may be under way, which a status byte abandons. -/
structure Between (decoder : Decoder) (running : Option UInt8) : Prop where
  clear : decoder.held = none
  closed : decoder.sysEx.receiving = false
  repeats : decoder.running = running

/-- No message is under way, so the next data byte repeats the running status. -/
structure Ready (decoder : Decoder) (running : Option UInt8) : Prop
    extends Between decoder running where
  current : decoder.current = running
  whole : decoder.awaitsSecond = false

/-- A system exclusive message is open. These are the bytes read since the last piece of it,
if there was one. -/
structure Inside (decoder : Decoder) (data : List UInt8) (first : Bool) : Prop where
  clear : decoder.held = none
  opened : decoder.sysEx.receiving = true
  current : decoder.current = some sysExStart
  repeats : decoder.running = none
  whole : decoder.awaitsSecond = false
  fresh : decoder.sysEx.handedOut = false
  collected : decoder.sysEx.data = data
  atStart : decoder.sysEx.first = first
  bounded : data.length ≤ Assembly.capacity

theorem ready_initial (keepsRunning : Bool) : (initial keepsRunning).Ready none :=
  ⟨⟨rfl, rfl, rfl⟩, rfl, rfl⟩

/-! ## Composition -/

/-- What a byte brings, if it is not held back. -/
theorem drain_single {byte : UInt8} {next : Decoder} {event? : Option Event}
    (fed : decoder.feed byte = (next, event?)) (clear : decoder.held = none)
    (cleared : next.held = none) : decoder.drain [byte] = (event?.toList, next) := by
  rw [drain_cons clear, fed, drain_nil cleared]
  simp

/-- Input in two parts is drained one part after the other. -/
theorem drain_trans {middle final : Decoder} {front back : List UInt8}
    {early late : List Event} (first : decoder.drain front = (early, middle))
    (second : middle.drain back = (late, final)) :
    decoder.drain (front ++ back) = (early ++ late, final) := by
  rw [drain_append, first, second]

/-! ## The mode of a decoder -/

@[simp] theorem keepsRunning_feed (decoder : Decoder) (byte : UInt8) :
    (decoder.feed byte).1.keepsRunning = decoder.keepsRunning := by
  unfold feed
  split
  · unfold takeData takeChannelData takeCommonData handOut
    grind
  · rfl
  · unfold takeStatus closeSysEx openCommon handOut
    grind

/-- Settling a byte keeps the mode. -/
theorem Settles.keepsRunning {byte : UInt8} {events : List Event} {final : Decoder}
    (settles : Settles byte decoder events final) :
    final.keepsRunning = decoder.keepsRunning := by
  induction settles with
  | @done decoder next event? fed cleared =>
    have kept := decoder.keepsRunning_feed byte
    rwa [fed] at kept
  | @again decoder next final event events fed held later ih =>
    have kept := decoder.keepsRunning_feed byte
    rw [fed] at kept
    exact ih.trans kept

/-- Draining keeps the mode if no byte has been held back. -/
theorem keepsRunning_drain_of_clear (clear : decoder.held = none) (input : List UInt8) :
    (decoder.drain input).2.keepsRunning = decoder.keepsRunning := by
  induction input generalizing decoder with
  | nil => rw [drain_nil clear]
  | cons byte rest ih =>
    obtain ⟨events, final, settles⟩ := exists_settles clear byte
    rw [settles.drain_cons clear]
    exact (ih settles.cleared).trans settles.keepsRunning

/-- Nothing changes the rule for system common messages. -/
theorem keepsRunning_drain (decoder : Decoder) (input : List UInt8) :
    (decoder.drain input).2.keepsRunning = decoder.keepsRunning := by
  cases held : decoder.held with
  | none => exact keepsRunning_drain_of_clear held input
  | some byte =>
    have taken : { decoder with held := none }.held = none := rfl
    rw [drain_of_held held]
    exact keepsRunning_drain_of_clear taken (byte :: input)

/-! ## Real-time bytes -/

/-- A real-time byte is a message, and changes nothing else. -/
theorem drain_realTime {byte : UInt8} (clear : decoder.held = none)
    (kind : ByteClass.of byte = .realTime) :
    decoder.drain [byte] =
      ([.realTime ⟨byte, .first⟩], { decoder with realTime := ⟨byte, .first⟩ }) := by
  have loud : isRealTime byte = true := by simp [isRealTime, kind]
  exact (settles_realTime loud clear).drain_eq clear

/-! ## Between messages -/

/-- A channel status byte is the new running status. -/
theorem Between.drain_channelStatus (between : decoder.Between running)
    (kind : ByteClass.of status = .channelStatus) :
    ∃ next, decoder.drain [status] = ([], next) ∧ next.Ready (some status) := by
  have fed : decoder.feed status =
      ({ decoder with current := some status, running := some status, awaitsSecond := false },
        none) := by
    simp [feed, kind, takeStatus, between.closed]
  exact ⟨_, drain_single fed between.clear between.clear,
    ⟨⟨between.clear, between.closed, rfl⟩, rfl, rfl⟩⟩

/-- An end byte without a start is skipped. -/
theorem Between.drain_sysExEnd (between : decoder.Between running) :
    decoder.drain [sysExEnd] = ([], decoder) := by
  have fed : decoder.feed sysExEnd = (decoder, none) := by
    simp [feed, show ByteClass.of sysExEnd = .sysExEnd from rfl, takeStatus, between.closed]
  exact drain_single fed between.clear between.clear

/-- A start byte ends the running status. -/
theorem Between.drain_sysExStart (between : decoder.Between running) :
    ∃ next, decoder.drain [sysExStart] = ([], next) ∧ next.Inside [sysExStart] true := by
  have fed : decoder.feed sysExStart =
      ({ decoder with
          sysEx := decoder.sysEx.start.append [sysExStart]
          current := some sysExStart
          running := none
          awaitsSecond := false },
        none) := by
    simp [feed, show ByteClass.of sysExStart = .sysExStart from rfl, takeStatus, between.closed]
  exact ⟨_, drain_single fed between.clear between.clear,
    ⟨between.clear, rfl, rfl, rfl, rfl, rfl, rfl, rfl, by decide⟩⟩

/-- Data without a running status is skipped. -/
theorem Ready.drain_stray {data : UInt8} (ready : decoder.Ready none)
    (low : ByteClass.of data = .data) : decoder.drain [data] = ([], decoder) := by
  have fed : decoder.feed data = (decoder, none) := by
    simp [feed, low, takeData, ready.current]
  exact drain_single fed ready.clear ready.clear

/-! ## Channel messages -/

/-- The only data byte of a channel message completes it. -/
theorem Ready.drain_short {data : UInt8} (ready : decoder.Ready (some header))
    (kind : ByteClass.of header = .channelStatus) (short : hasTwoDataBytes header = false)
    (low : ByteClass.of data = .data) :
    ∃ next, decoder.drain [data] = ([.channel ⟨header, data, 0, .first⟩], next) ∧
      next.Ready (some header) := by
  have fed : decoder.feed data =
      ({ decoder with channel := ⟨header, data, 0, .first⟩ },
        some (.channel ⟨header, data, 0, .first⟩)) := by
    simp [feed, low, takeData, ready.current, kind, takeChannelData, ready.whole, short]
  exact ⟨_, drain_single fed ready.clear ready.clear,
    ⟨⟨ready.clear, ready.closed, ready.repeats⟩, ready.current, ready.whole⟩⟩

/-- The first of two data bytes completes nothing. -/
theorem Ready.drain_first {data : UInt8} (ready : decoder.Ready (some header))
    (kind : ByteClass.of header = .channelStatus) (long : hasTwoDataBytes header = true)
    (low : ByteClass.of data = .data) :
    decoder.drain [data] =
      ([], { decoder with channel := ⟨header, data, 0, .first⟩, awaitsSecond := true }) := by
  have fed : decoder.feed data =
      ({ decoder with channel := ⟨header, data, 0, .first⟩, awaitsSecond := true }, none) := by
    simp [feed, low, takeData, ready.current, kind, takeChannelData, ready.whole, long]
  exact drain_single fed ready.clear ready.clear

/-- The second data byte of a channel message completes it. -/
theorem Ready.drain_second {second : UInt8} (data : UInt8) (ready : decoder.Ready (some header))
    (kind : ByteClass.of header = .channelStatus) (low : ByteClass.of second = .data) :
    ∃ next,
      drain { decoder with channel := ⟨header, data, 0, .first⟩, awaitsSecond := true } [second] =
        ([.channel ⟨header, data, second, .first⟩], next) ∧
      next.Ready (some header) := by
  have fed : feed { decoder with channel := ⟨header, data, 0, .first⟩, awaitsSecond := true }
        second =
      ({ decoder with channel := ⟨header, data, second, .first⟩, awaitsSecond := false },
        some (.channel ⟨header, data, second, .first⟩)) := by
    simp [feed, low, takeData, ready.current, kind, takeChannelData]
  exact ⟨_, drain_single fed ready.clear ready.clear,
    ⟨⟨ready.clear, ready.closed, ready.repeats⟩, ready.current, rfl⟩⟩

/-! ## System common messages -/

/-- The running status behind a system common status byte. -/
def keptRunning (decoder : Decoder) : Option UInt8 :=
  if decoder.keepsRunning then decoder.running else none

/-- The data bytes of a system common message are still to come. -/
structure Expecting (decoder : Decoder) (status : UInt8) (running : Option UInt8) : Prop
    extends Between decoder running where
  current : decoder.current = some status
  whole : decoder.awaitsSecond = false

/-- A system common message without data is complete at once. -/
theorem Between.drain_bareCommon (between : decoder.Between running)
    (kind : ByteClass.of status = .systemCommon) (bare : systemCommonDataCount status = 0) :
    ∃ next, decoder.drain [status] = ([.common ⟨status, 0, 0, .first⟩], next) ∧
      next.Ready decoder.keptRunning := by
  have fed : decoder.feed status =
      ({ decoder with
          common := ⟨status, 0, 0, .first⟩
          current := decoder.keptRunning
          running := decoder.keptRunning
          awaitsSecond := false },
        some (.common ⟨status, 0, 0, .first⟩)) := by
    simp [feed, kind, takeStatus, between.closed, openCommon, bare, keptRunning]
  exact ⟨_, drain_single fed between.clear between.clear,
    ⟨⟨between.clear, between.closed, rfl⟩, rfl, rfl⟩⟩

/-- A common status waits for its data, and the running status is kept or forgotten. -/
theorem Between.drain_commonStatus (between : decoder.Between running)
    (kind : ByteClass.of status = .systemCommon) (laden : systemCommonDataCount status ≠ 0) :
    ∃ next, decoder.drain [status] = ([], next) ∧ next.Expecting status decoder.keptRunning := by
  have fed : decoder.feed status =
      ({ decoder with
          current := some status
          running := decoder.keptRunning
          awaitsSecond := false },
        none) := by
    simp [feed, kind, takeStatus, between.closed, openCommon, laden, keptRunning]
  exact ⟨_, drain_single fed between.clear between.clear,
    ⟨⟨between.clear, between.closed, rfl⟩, rfl, rfl⟩⟩

/-- The only data byte of a common message completes it. -/
theorem Expecting.drain_only {data : UInt8} (expecting : decoder.Expecting status running)
    (kind : ByteClass.of status = .systemCommon) (one : systemCommonDataCount status = 1)
    (low : ByteClass.of data = .data) :
    ∃ next, decoder.drain [data] = ([.common ⟨status, data, 0, .first⟩], next) ∧
      next.Ready running := by
  have fed : decoder.feed data =
      ({ decoder with common := ⟨status, data, 0, .first⟩, current := decoder.running },
        some (.common ⟨status, data, 0, .first⟩)) := by
    simp [feed, low, takeData, expecting.current, kind, takeCommonData, expecting.whole, one]
  exact ⟨_, drain_single fed expecting.clear expecting.clear,
    ⟨⟨expecting.clear, expecting.closed, expecting.repeats⟩, expecting.repeats, expecting.whole⟩⟩

/-- The first of two data bytes of a common message is stored. -/
theorem Expecting.drain_first {data : UInt8} (expecting : decoder.Expecting status running)
    (kind : ByteClass.of status = .systemCommon) (two : systemCommonDataCount status = 2)
    (low : ByteClass.of data = .data) :
    decoder.drain [data] =
      ([], { decoder with common := ⟨status, data, 0, .first⟩, awaitsSecond := true }) := by
  have fed : decoder.feed data =
      ({ decoder with common := ⟨status, data, 0, .first⟩, awaitsSecond := true }, none) := by
    simp [feed, low, takeData, expecting.current, kind, takeCommonData, expecting.whole, two]
  exact drain_single fed expecting.clear expecting.clear

/-- The second data byte of a common message completes it. -/
theorem Expecting.drain_second {second : UInt8} (data : UInt8)
    (expecting : decoder.Expecting status running)
    (kind : ByteClass.of status = .systemCommon) (low : ByteClass.of second = .data) :
    ∃ next,
      drain { decoder with common := ⟨status, data, 0, .first⟩, awaitsSecond := true } [second] =
        ([.common ⟨status, data, second, .first⟩], next) ∧
      next.Ready running := by
  have fed : feed { decoder with common := ⟨status, data, 0, .first⟩, awaitsSecond := true }
        second =
      ({ decoder with
          common := ⟨status, data, second, .first⟩
          current := decoder.running
          awaitsSecond := false },
        some (.common ⟨status, data, second, .first⟩)) := by
    simp [feed, low, takeData, expecting.current, kind, takeCommonData]
  exact ⟨_, drain_single fed expecting.clear expecting.clear,
    ⟨⟨expecting.clear, expecting.closed, expecting.repeats⟩, expecting.repeats, rfl⟩⟩

/-! ## System exclusive messages -/

namespace Inside

variable {data : List UInt8} {first : Bool}

/-- There is room for a byte as long as the bytes under way are less than a piece. -/
theorem hasRoom_eq (inside : decoder.Inside data first) :
    decoder.sysEx.hasRoom 1 = decide (data.length + 1 ≤ Assembly.capacity) := by
  simp [Assembly.hasRoom, Assembly.used, inside.fresh, inside.collected]

/-- A byte that fits is collected. -/
theorem append (inside : decoder.Inside data first) (byte : UInt8)
    (room : data.length + 1 ≤ Assembly.capacity) :
    Inside { decoder with sysEx := decoder.sysEx.append [byte] } (data ++ [byte]) first where
  clear := inside.clear
  opened := by simp [inside.opened]
  current := inside.current
  repeats := inside.repeats
  whole := inside.whole
  fresh := by simp
  collected := by simp [Assembly.append, Assembly.nextPiece, inside.fresh, inside.collected]
  atStart := by simp [Assembly.append, Assembly.nextPiece, inside.fresh, inside.atStart]
  bounded := by simpa using room

/-- Behind a full piece a byte starts the next one. -/
theorem append_handOut (inside : decoder.Inside data first) (byte : UInt8) :
    Inside { decoder with sysEx := decoder.sysEx.handOut.append [byte], held := none } [byte]
      false where
  clear := rfl
  opened := by simp [Assembly.handOut, inside.opened]
  current := inside.current
  repeats := inside.repeats
  whole := inside.whole
  fresh := by simp
  collected := by simp [Assembly.append, Assembly.nextPiece, Assembly.handOut]
  atStart := by simp [Assembly.append, Assembly.nextPiece, Assembly.handOut]
  bounded := by simp [Assembly.capacity]

/-- The bytes under way are handed out as a piece, and the byte behind them is held back. -/
theorem handOut_eq (inside : decoder.Inside data first) (byte : UInt8) :
    decoder.handOut byte =
      ({ decoder with sysEx := decoder.sysEx.handOut, held := some byte },
        some (.sysExChunk ⟨data, .first, first, false⟩)) := by
  simp [Decoder.handOut, sysExPiece, Assembly.piece, Assembly.handOut, inside.collected,
    inside.atStart, inside.opened]

/-- Collect a data byte, in a new piece if the last one is full. -/
theorem drain_byte {byte : UInt8} (inside : decoder.Inside data first)
    (low : ByteClass.of byte = .data) :
    ∃ next, decoder.drain [byte] = (SysEx.openPieces first (data ++ [byte]), next) ∧
      next.Inside (SysEx.cut first (data ++ [byte])).2.data
        (SysEx.cut first (data ++ [byte])).2.first := by
  have start : ByteClass.of sysExStart = .sysExStart := rfl
  by_cases room : data.length + 1 ≤ Assembly.capacity
  · have fed : decoder.feed byte =
        ({ decoder with sysEx := decoder.sysEx.append [byte] }, none) := by
      simp [feed, low, takeData, inside.current, start, inside.hasRoom_eq, room]
    rw [SysEx.openPieces, SysEx.cut_of_short (by simpa using room)]
    exact ⟨_, drain_single fed inside.clear inside.clear, inside.append byte room⟩
  · have length : data.length = Assembly.capacity :=
      Nat.le_antisymm inside.bounded (by omega)
    have fed : decoder.feed byte = decoder.handOut byte := by
      simp [feed, low, takeData, inside.current, start, inside.hasRoom_eq, room]
    have again : feed { decoder with sysEx := decoder.sysEx.handOut, held := none } byte =
        ({ decoder with sysEx := decoder.sysEx.handOut.append [byte], held := none }, none) := by
      simp [feed, low, takeData, inside.current, start, Assembly.hasRoom, Assembly.used,
        Assembly.handOut, Assembly.capacity]
    rw [SysEx.openPieces, SysEx.cut_full_append length (by simp), SysEx.cut_single]
    refine ⟨_, ?_, inside.append_handOut byte⟩
    rw [drain_cons inside.clear, fed, inside.handOut_eq, drain_of_held rfl,
      drain_single again rfl rfl]
    rfl

/-- Collect data bytes. The full pieces are those of the joined bytes. -/
theorem drain_data {bytes : List UInt8} (inside : decoder.Inside data first)
    (low : ∀ byte ∈ bytes, ByteClass.of byte = .data) :
    ∃ next, decoder.drain bytes = (SysEx.openPieces first (data ++ bytes), next) ∧
      next.Inside (SysEx.cut first (data ++ bytes)).2.data
        (SysEx.cut first (data ++ bytes)).2.first := by
  induction bytes generalizing decoder data first with
  | nil =>
    rw [List.append_nil, SysEx.openPieces, SysEx.cut_of_short inside.bounded]
    exact ⟨decoder, drain_nil inside.clear, inside⟩
  | cons byte rest ih =>
    obtain ⟨middle, head, there⟩ := inside.drain_byte (low byte (by simp))
    obtain ⟨next, tail, final⟩ := ih there fun later member => low later (by simp [member])
    have joined : data ++ byte :: rest = (data ++ [byte]) ++ rest := by simp
    rw [joined, SysEx.openPieces, SysEx.cut_append]
    refine ⟨next, ?_, final⟩
    rw [← List.singleton_append, drain_trans head tail]
    simp [SysEx.openPieces]

/-- The end byte belongs to the last piece. -/
theorem drain_sysExEnd (inside : decoder.Inside data first) :
    ∃ next, decoder.drain [sysExEnd] = (SysEx.allPieces first (data ++ [sysExEnd]), next) ∧
      next.Ready none := by
  have kind : ByteClass.of sysExEnd = .sysExEnd := rfl
  by_cases room : data.length + 1 ≤ Assembly.capacity
  · have fed : decoder.feed sysExEnd =
        ({ decoder with
            sysEx := (decoder.sysEx.append [sysExEnd]).finish
            current := decoder.running },
          some (.sysExMessage ⟨data ++ [sysExEnd], .first, first, true⟩)) := by
      simp [feed, kind, takeStatus, inside.opened, closeSysEx, inside.hasRoom_eq, room,
        sysExPiece, Assembly.piece, Assembly.finish, Assembly.append, Assembly.nextPiece,
        inside.fresh, inside.collected, inside.atStart]
    rw [SysEx.allPieces, SysEx.openPieces, SysEx.cut_of_short (by simpa using room)]
    exact ⟨_, drain_single fed inside.clear inside.clear,
      ⟨⟨inside.clear, rfl, inside.repeats⟩, inside.repeats, inside.whole⟩⟩
  · have length : data.length = Assembly.capacity :=
      Nat.le_antisymm inside.bounded (by omega)
    have fed : decoder.feed sysExEnd = decoder.handOut sysExEnd := by
      simp [feed, kind, takeStatus, inside.opened, closeSysEx, inside.hasRoom_eq, room]
    have again : feed { decoder with sysEx := decoder.sysEx.handOut, held := none } sysExEnd =
        ({ decoder with
            sysEx := (decoder.sysEx.handOut.append [sysExEnd]).finish
            current := decoder.running
            held := none },
          some (.sysExMessage ⟨[sysExEnd], .first, false, true⟩)) := by
      simp [feed, kind, takeStatus, closeSysEx, inside.opened, Assembly.hasRoom, Assembly.used,
        Assembly.handOut, Assembly.capacity, sysExPiece, Assembly.piece, Assembly.finish,
        Assembly.append, Assembly.nextPiece]
    rw [SysEx.allPieces, SysEx.openPieces, SysEx.cut_full_append length (by simp),
      SysEx.cut_single, drain_cons inside.clear, fed, inside.handOut_eq, drain_of_held rfl,
      drain_single again rfl rfl]
    exact ⟨_, rfl, ⟨⟨rfl, rfl, inside.repeats⟩, inside.repeats, inside.whole⟩⟩

/-- A status byte of another message ends this one, and is then read again. -/
theorem drain_status (inside : decoder.Inside data first)
    (kind : ByteClass.of status = .channelStatus ∨ ByteClass.of status = .systemCommon ∨
      ByteClass.of status = .sysExStart) :
    ∃ next : Decoder, next.Ready none ∧ next.keepsRunning = decoder.keepsRunning ∧
      ∀ input, decoder.drain (status :: input) =
        (SysEx.allPieces first data ++ (next.drain (status :: input)).1,
          (next.drain (status :: input)).2) := by
  have other : status ≠ sysExEnd := by
    rintro rfl
    revert kind
    decide
  have fed : decoder.feed status =
      ({ decoder with
          sysEx := decoder.sysEx.finish
          current := decoder.running
          held := some status },
        some (.sysExMessage ⟨data, .first, first, true⟩)) := by
    have taken : decoder.feed status = decoder.takeStatus status := by
      unfold feed
      rcases kind with kind | kind | kind <;> rw [kind]
    simp [taken, takeStatus, inside.opened, closeSysEx, other, sysExPiece, Assembly.piece,
      Assembly.finish, Assembly.nextPiece, inside.fresh, inside.collected, inside.atStart]
  refine ⟨{ decoder with
      sysEx := decoder.sysEx.finish
      current := decoder.running
      held := none },
    ⟨⟨rfl, rfl, inside.repeats⟩, inside.repeats, inside.whole⟩, rfl, ?_⟩
  intro input
  rw [SysEx.allPieces, SysEx.openPieces, SysEx.cut_of_short inside.bounded,
    drain_cons inside.clear, fed, drain_of_held rfl]
  rfl

end Inside

end MidiTransport.Stream.Decoder
