import MidiTransport.Proofs.Stream.Situation

/-!
# The grammar of a MIDI byte stream

A stream without real-time bytes is a sequence of segments, each a status byte with the
bytes behind it. `Grammar.events` reads the events off the segments, with no state but
the status that system common messages leave to repeat. A decoder finds exactly these
events: every state it can be in is a position in a segment (`Grammar.At`), and the
events that it still finds are those that the rest of the segments has from this
position on (`Grammar.Position.remaining`).
-/

namespace MidiTransport.Stream.Grammar

open SysEx (Assembly openPieces allPieces cut)

/-! ## Segments -/

/-- Leave out the end bytes that arrive while no system exclusive message is open. -/
def withoutStrayEnds (inside : Bool) : List UInt8 → List UInt8
  | [] => []
  | byte :: rest =>
    match ByteClass.of byte with
    | .data | .realTime => byte :: withoutStrayEnds inside rest
    | .sysExStart => byte :: withoutStrayEnds true rest
    | .sysExEnd =>
      if inside then byte :: withoutStrayEnds false rest else withoutStrayEnds false rest
    | .channelStatus | .systemCommon => byte :: withoutStrayEnds false rest

/-- A status byte and the bytes behind it. The end byte of a system exclusive message is
one of the bytes behind its start byte. -/
structure Segment where
  status : UInt8
  body : List UInt8
  deriving DecidableEq, Repr

/-- Does a segment start with this byte? -/
def opensSegment (byte : UInt8) : Bool := isStatus byte && byte != sysExEnd

/-- The bytes in front of the first segment, and the segments. -/
def segments : List UInt8 → List UInt8 × List Segment
  | [] => ([], [])
  | byte :: rest =>
    let (lead, later) := segments rest
    if opensSegment byte then ([], ⟨byte, lead⟩ :: later) else (byte :: lead, later)

/-! ## The events of a segment -/

/-- One message for every two data bytes. A single byte at the end is dropped. -/
def pairs (header : UInt8) : List UInt8 → List Event
  | data1 :: data2 :: rest => .channel ⟨header, data1, data2, .first⟩ :: pairs header rest
  | _ => []

/-- One channel message for every complete group of data bytes. -/
def channelEvents (header : UInt8) (body : List UInt8) : List Event :=
  if hasTwoDataBytes header then pairs header body
  else body.map fun data => .channel ⟨header, data, 0, .first⟩

/-- The data bytes that a system common message leaves over, as channel messages of the
status that may be repeated. -/
def surplusEvents (repeats : Option UInt8) (surplus : List UInt8) : List Event :=
  match repeats with
  | none => []
  | some header => channelEvents header surplus

/-- A system common message, if it has all of its data bytes, and what is left over. -/
def commonEvents (status : UInt8) (repeats : Option UInt8) (body : List UInt8) :
    List Event :=
  let count := systemCommonDataCount status
  if body.length < count then []
  else
    .common ⟨status, (body.take count).getD 0 0, (body.take count).getD 1 0, .first⟩ ::
      surplusEvents repeats (body.drop count)

/-- The bytes up to the end byte. -/
def throughEnd : List UInt8 → List UInt8
  | [] => []
  | byte :: rest => if byte = sysExEnd then [byte] else byte :: throughEnd rest

/-- The pieces of a system exclusive message from some byte on. A message that is not over
has only its full pieces. -/
def sysExEvents (first : Bool) (bytes : List UInt8) (ended : Bool) : List Event :=
  if ended then allPieces first bytes else openPieces first bytes

/-- The full pieces of the bytes in front are announced first, and what remains of them goes on. -/
theorem sysExEvents_append (first : Bool) (front back : List UInt8) (ended : Bool) :
    sysExEvents first (front ++ back) ended =
      openPieces first front ++
        sysExEvents (cut first front).2.first ((cut first front).2.data ++ back) ended := by
  cases ended <;> simp [sysExEvents, allPieces, openPieces, SysEx.cut_append first front back]

/-- Is the message over that has these bytes behind its start, with these segments behind
it? -/
def isOver (body : List UInt8) (later : List Segment) : Bool :=
  body.contains sysExEnd || !later.isEmpty

/-- The events of segments, behind segments with this status to repeat. -/
def segmentEvents (keepsRunning : Bool) (repeats : Option UInt8) :
    List Segment → List Event
  | [] => []
  | ⟨status, body⟩ :: later =>
    match ByteClass.of status with
    | .channelStatus =>
      channelEvents status body ++ segmentEvents keepsRunning (some status) later
    | .systemCommon =>
      let repeats := if keepsRunning then repeats else none
      commonEvents status repeats body ++ segmentEvents keepsRunning repeats later
    | _ =>
      sysExEvents true (status :: throughEnd body) (isOver body later) ++
        segmentEvents keepsRunning none later

/-- The events of a stream without real-time bytes. -/
def events (keepsRunning : Bool) (bytes : List UInt8) : List Event :=
  segmentEvents keepsRunning none (segments (withoutStrayEnds false bytes)).2

/-! ## Classes of bytes -/

/-- A data byte belongs to the segment in front of it. -/
theorem opensSegment_of_data {byte : UInt8} (low : ByteClass.of byte = .data) :
    opensSegment byte = false := by
  simp [opensSegment, isStatus, isData, low]

/-- The status bytes of messages, as opposed to the end byte. -/
def IsLeading (byte : UInt8) : Prop :=
  ByteClass.of byte = .channelStatus ∨ ByteClass.of byte = .systemCommon ∨
    ByteClass.of byte = .sysExStart

/-- The status of a message opens a segment. -/
theorem opensSegment_of_leading {byte : UInt8} (leading : IsLeading byte) :
    opensSegment byte = true := by
  have other : byte ≠ sysExEnd := by
    rintro rfl
    revert leading
    unfold IsLeading
    decide
  rcases leading with kind | kind | kind <;> simp [opensSegment, isStatus, isData, kind, other]

/-! ## Positions in a segment -/

/-- How much of a segment has been read. -/
inductive Position where
  /-- Data bytes belong to nothing. -/
  | idle
  /-- Behind a channel status byte, or behind a system common message that has left this
  status to repeat, and maybe behind the first of two data bytes. -/
  | channel (header : UInt8) (given : Option UInt8)
  /-- Behind a system common status byte, and maybe behind the first of two data bytes. -/
  | common (status : UInt8) (given : Option UInt8) (repeats : Option UInt8)
  /-- Within a system exclusive message, of which these bytes have not been announced. -/
  | sysEx (data : List UInt8) (first : Bool)
  deriving DecidableEq, Repr

namespace Position

/-- Is a system exclusive message open? -/
def inside : Position → Bool
  | sysEx _ _ => true
  | _ => false

/-- The status that may be repeated behind the segment. -/
def running : Position → Option UInt8
  | channel header _ => some header
  | common _ _ repeats => repeats
  | _ => none

/-- The position in which data bytes repeat a status, if there is one. -/
def repeating : Option UInt8 → Position
  | none => idle
  | some header => channel header none

/-- The events that are still to come from the rest of the segment. -/
def remainder : Position → List UInt8 → List Segment → List Event
  | idle, _, _ => []
  | channel header given, lead, _ => channelEvents header (given.toList ++ lead)
  | common status given repeats, lead, _ =>
    commonEvents status repeats (given.toList ++ lead)
  | sysEx data first, lead, later =>
    sysExEvents first (data ++ throughEnd lead) (isOver lead later)

/-- The events that are still to come from the rest of the segment and from those
behind it. -/
def remaining (position : Position) (keepsRunning : Bool) (lead : List UInt8)
    (later : List Segment) : List Event :=
  position.remainder lead later ++ segmentEvents keepsRunning position.running later

end Position

/-- The state of a decoder at a position. -/
def At (decoder : Decoder) : Position → Prop
  | .idle => decoder.Ready none
  | .channel header none =>
    ByteClass.of header = .channelStatus ∧ decoder.Ready (some header)
  | .channel header (some data) =>
    ByteClass.of header = .channelStatus ∧ hasTwoDataBytes header = true ∧
      ∃ origin : Decoder, origin.Ready (some header) ∧
        decoder =
          { origin with channel := ⟨header, data, 0, .first⟩, awaitsSecond := true }
  | .common status none repeats =>
    ByteClass.of status = .systemCommon ∧ systemCommonDataCount status ≠ 0 ∧
      (∀ header ∈ repeats, ByteClass.of header = .channelStatus) ∧
      decoder.Expecting status repeats
  | .common status (some data) repeats =>
    ByteClass.of status = .systemCommon ∧ systemCommonDataCount status = 2 ∧
      (∀ header ∈ repeats, ByteClass.of header = .channelStatus) ∧
      ∃ origin : Decoder, origin.Expecting status repeats ∧
        decoder = { origin with common := ⟨status, data, 0, .first⟩, awaitsSecond := true }
  | .sysEx data first => decoder.Inside data first

variable {decoder : Decoder} {position : Position} {keepsRunning : Bool}

theorem at_initial (keepsRunning : Bool) : At (.initial keepsRunning) .idle :=
  Decoder.ready_initial keepsRunning

/-- A decoder that is ready repeats its running status, or is idle without one. -/
theorem at_repeating {repeats : Option UInt8}
    (valid : ∀ header ∈ repeats, ByteClass.of header = .channelStatus)
    (ready : decoder.Ready repeats) : At decoder (.repeating repeats) := by
  cases repeats with
  | none => exact ready
  | some header => exact ⟨valid header rfl, ready⟩

theorem At.clear (here : At decoder position) : decoder.held = none := by
  cases position with
  | idle => exact Decoder.Between.clear here.toBetween
  | channel header given =>
    cases given with
    | none => exact here.2.clear
    | some data =>
      obtain ⟨_, _, origin, ready, rfl⟩ := here
      exact ready.clear
  | common status given repeats =>
    cases given with
    | none => exact here.2.2.2.clear
    | some data =>
      obtain ⟨_, _, _, origin, expecting, rfl⟩ := here
      exact expecting.clear
  | sysEx data first => exact Decoder.Inside.clear here

/-- Outside of system exclusive messages a status byte finds the same state everywhere. -/
theorem At.between (here : At decoder position) (outside : position.inside = false) :
    decoder.Between position.running := by
  cases position with
  | idle => exact Decoder.Ready.toBetween here
  | channel header given =>
    cases given with
    | none => exact here.2.toBetween
    | some data =>
      obtain ⟨_, _, origin, ready, rfl⟩ := here
      exact ⟨ready.clear, ready.closed, ready.repeats⟩
  | common status given repeats =>
    cases given with
    | none => exact here.2.2.2.toBetween
    | some data =>
      obtain ⟨_, _, _, origin, expecting, rfl⟩ := here
      exact ⟨expecting.clear, expecting.closed, expecting.repeats⟩
  | sysEx data first => cases outside

/-- Only channel messages may be repeated. -/
theorem At.valid (here : At decoder position) :
    ∀ header ∈ position.running, ByteClass.of header = .channelStatus := by
  rintro header member
  cases position with
  | idle => cases member
  | channel other given =>
    cases member
    cases given with
    | none => exact here.1
    | some data => exact here.1
  | common status given repeats =>
    cases given with
    | none => exact here.2.2.1 header member
    | some data => exact here.2.2.1 header member
  | sysEx data first => cases member

/-- A message that lacks data bytes brings nothing. -/
theorem At.remainder_nil (here : At decoder position) (outside : position.inside = false)
    (later : List Segment) : position.remainder [] later = [] := by
  cases position with
  | idle => rfl
  | channel header given =>
    cases given with
    | none => simp [Position.remainder, channelEvents, pairs]
    | some data => simp [Position.remainder, channelEvents, pairs, here.2.1]
  | common status given repeats =>
    cases given with
    | none =>
      have laden : 0 < systemCommonDataCount status := Nat.pos_of_ne_zero here.2.1
      simp [Position.remainder, commonEvents, laden]
    | some data => simp [Position.remainder, commonEvents, here.2.1]
  | sysEx data first => cases outside

/-! ## One byte -/

/-- An idle decoder passes over data and goes on with the segments behind them. -/
theorem remaining_idle (lead : List UInt8) (later : List Segment) :
    Position.idle.remaining keepsRunning lead later = segmentEvents keepsRunning none later :=
  rfl

@[simp] theorem remaining_channel (header : UInt8) (given : Option UInt8) (lead : List UInt8)
    (later : List Segment) :
    (Position.channel header given).remaining keepsRunning lead later =
      channelEvents header (given.toList ++ lead) ++
        segmentEvents keepsRunning (some header) later :=
  rfl

@[simp] theorem remaining_common (status : UInt8) (given repeats : Option UInt8)
    (lead : List UInt8) (later : List Segment) :
    (Position.common status given repeats).remaining keepsRunning lead later =
      commonEvents status repeats (given.toList ++ lead) ++
        segmentEvents keepsRunning repeats later :=
  rfl

@[simp] theorem remaining_sysEx (data : List UInt8) (first : Bool) (lead : List UInt8)
    (later : List Segment) :
    (Position.sysEx data first).remaining keepsRunning lead later =
      sysExEvents first (data ++ throughEnd lead) (isOver lead later) ++
        segmentEvents keepsRunning none later :=
  rfl

@[simp] theorem remaining_repeating (repeats : Option UInt8) (lead : List UInt8)
    (later : List Segment) :
    (Position.repeating repeats).remaining keepsRunning lead later =
      surplusEvents repeats lead ++ segmentEvents keepsRunning repeats later := by
  cases repeats <;> rfl

@[simp] theorem inside_repeating (repeats : Option UInt8) :
    (Position.repeating repeats).inside = false := by
  cases repeats <;> rfl

/-- A byte takes a decoder to a position, inside of a system exclusive message or not. The
events that it brings about and those that remain from there on are what it had to bring,
whatever bytes and segments follow. -/
def Advances (decoder : Decoder) (byte : UInt8) (inside : Bool)
    (due : List UInt8 → List Segment → List Event) : Prop :=
  ∃ completed next position, decoder.drain [byte] = (completed, next) ∧ At next position ∧
    position.inside = inside ∧
    ∀ lead later, due lead later = completed ++ position.remaining decoder.keepsRunning lead later

/-- A leading status byte opens the next segment. -/
theorem advances_leading {status : UInt8} {running : Option UInt8}
    (between : decoder.Between running)
    (valid : ∀ header ∈ running, ByteClass.of header = .channelStatus)
    (leading : IsLeading status) :
    Advances decoder status (ByteClass.of status == .sysExStart) fun lead later =>
      segmentEvents decoder.keepsRunning running (⟨status, lead⟩ :: later) := by
  rcases leading with kind | kind | kind
  · obtain ⟨next, drained, ready⟩ := between.drain_channelStatus kind
    refine ⟨[], next, .channel status none, drained, ⟨kind, ready⟩,
      by simp [kind, Position.inside], ?_⟩
    intro lead later
    simp [segmentEvents, kind]
  · have kept : decoder.keptRunning = if decoder.keepsRunning then running else none := by
      rw [Decoder.keptRunning, between.repeats]
    have stillValid : ∀ header ∈ decoder.keptRunning, ByteClass.of header = .channelStatus := by
      intro header member
      rw [kept] at member
      split at member
      · exact valid header member
      · cases member
    -- Without data the message is complete at once, and the decoder is back where it repeats.
    by_cases bare : systemCommonDataCount status = 0
    · obtain ⟨next, drained, ready⟩ := between.drain_bareCommon kind bare
      refine ⟨[.common ⟨status, 0, 0, .first⟩], next, .repeating decoder.keptRunning, drained,
        at_repeating stillValid ready, by simp [kind], ?_⟩
      intro lead later
      simp [segmentEvents, kind, commonEvents, bare, kept]
    · obtain ⟨next, drained, expecting⟩ := between.drain_commonStatus kind bare
      refine ⟨[], next, .common status none decoder.keptRunning, drained,
        ⟨kind, bare, stillValid, expecting⟩, by simp [kind, Position.inside], ?_⟩
      intro lead later
      simp [segmentEvents, kind, kept]
  · obtain rfl := ByteClass.of_eq_sysExStart_iff.mp kind
    obtain ⟨next, drained, inside⟩ := between.drain_sysExStart
    refine ⟨[], next, .sysEx [sysExStart] true, drained, inside,
      by simp [kind, Position.inside], ?_⟩
    intro lead later
    simp [segmentEvents, kind]

/-- A data byte of a channel message completes it or is kept. -/
theorem advances_channelData {byte header : UInt8} {given : Option UInt8}
    (here : At decoder (.channel header given)) (low : ByteClass.of byte = .data) :
    Advances decoder byte false fun lead later =>
      (Position.channel header given).remaining decoder.keepsRunning (byte :: lead) later := by
  cases given with
  | none =>
    obtain ⟨kind, ready⟩ := here
    cases long : hasTwoDataBytes header with
    | false =>
      obtain ⟨next, drained, again⟩ := ready.drain_short kind long low
      refine ⟨_, next, .channel header none, drained, ⟨kind, again⟩, rfl, ?_⟩
      intro lead later
      simp [channelEvents, long]
    | true =>
      refine ⟨_, _, .channel header (some byte), ready.drain_first kind long low,
        ⟨kind, long, decoder, ready, rfl⟩, rfl, ?_⟩
      intro lead later
      simp
  | some data =>
    obtain ⟨kind, long, origin, ready, rfl⟩ := here
    obtain ⟨next, drained, again⟩ := ready.drain_second data kind low
    refine ⟨_, next, .channel header none, drained, ⟨kind, again⟩, rfl, ?_⟩
    intro lead later
    simp [channelEvents, long, pairs]

/-- A data byte of a system common message completes it or is kept. -/
theorem advances_commonData {byte status : UInt8} {given repeats : Option UInt8}
    (here : At decoder (.common status given repeats)) (low : ByteClass.of byte = .data) :
    Advances decoder byte false fun lead later =>
      (Position.common status given repeats).remaining decoder.keepsRunning (byte :: lead)
        later := by
  cases given with
  | none =>
    obtain ⟨kind, laden, valid, expecting⟩ := here
    by_cases one : systemCommonDataCount status = 1
    · obtain ⟨next, drained, ready⟩ := expecting.drain_only kind one low
      refine ⟨_, next, .repeating repeats, drained, at_repeating valid ready, by simp, ?_⟩
      intro lead later
      simp [commonEvents, one]
    · have two : systemCommonDataCount status = 2 := by
        unfold systemCommonDataCount at *
        grind
      refine ⟨_, _, .common status (some byte) repeats, expecting.drain_first kind two low,
        ⟨kind, two, valid, decoder, expecting, rfl⟩, rfl, ?_⟩
      intro lead later
      simp
  | some data =>
    obtain ⟨kind, two, valid, origin, expecting, rfl⟩ := here
    obtain ⟨next, drained, ready⟩ := expecting.drain_second data kind low
    refine ⟨_, next, .repeating repeats, drained, at_repeating valid ready, by simp, ?_⟩
    intro lead later
    have enough : ¬ lead.length + 1 + 1 < 2 := by omega
    simp [commonEvents, two, enough]

/-- A data byte belongs to the segment under way. -/
theorem advances_data {byte : UInt8} (here : At decoder position)
    (low : ByteClass.of byte = .data) :
    Advances decoder byte position.inside fun lead later =>
      position.remaining decoder.keepsRunning (byte :: lead) later := by
  cases position with
  | idle =>
    exact ⟨[], decoder, .idle, Decoder.Ready.drain_stray here low, here, rfl,
      fun lead later => rfl⟩
  | channel header given => exact advances_channelData here low
  | common status given repeats => exact advances_commonData here low
  | sysEx data first =>
    obtain ⟨next, drained, inside⟩ := Decoder.Inside.drain_byte here low
    have other : byte ≠ sysExEnd := by
      rintro rfl
      cases low
    refine ⟨_, next, .sysEx _ _, drained, inside, rfl, ?_⟩
    intro lead later
    have joined : data ++ byte :: throughEnd lead = (data ++ [byte]) ++ throughEnd lead := by
      simp
    have sameEnd : isOver (byte :: lead) later = isOver lead later := by
      simp [isOver, other.symm]
    dsimp only
    rw [remaining_sysEx, remaining_sysEx, sameEnd, throughEnd, if_neg other, joined,
      sysExEvents_append, List.append_assoc]

/-- The end byte belongs to the message that it ends. -/
theorem advances_sysExEnd {data : List UInt8} {first : Bool}
    (here : At decoder (.sysEx data first)) :
    Advances decoder sysExEnd false fun lead later =>
      (Position.sysEx data first).remaining decoder.keepsRunning (sysExEnd :: lead) later := by
  obtain ⟨next, drained, ready⟩ := Decoder.Inside.drain_sysExEnd here
  refine ⟨_, next, .idle, drained, ready, rfl, ?_⟩
  intro lead later
  rw [remaining_idle]
  simp [throughEnd, isOver, sysExEvents]

/-- Inside of a system exclusive message a leading status byte ends that message and opens
the next segment. -/
theorem advances_cut {status : UInt8} {data : List UInt8} {first : Bool}
    (here : At decoder (.sysEx data first)) (leading : IsLeading status) :
    Advances decoder status (ByteClass.of status == .sysExStart) fun lead later =>
      (Position.sysEx data first).remaining decoder.keepsRunning [] (⟨status, lead⟩ :: later) := by
  obtain ⟨closed, ready, keeps, drained⟩ := Decoder.Inside.drain_status here leading
  obtain ⟨completed, next, position, opened, there, inside, due⟩ :=
    advances_leading ready.toBetween (by simp) leading
  refine ⟨allPieces first data ++ completed, next, position, ?_, there, inside, ?_⟩
  · rw [drained, opened]
  · intro lead later
    have rest := due lead later
    rw [keeps] at rest
    simp [throughEnd, isOver, sysExEvents, rest]

/-! ## A whole stream -/

@[simp] theorem segments_cons_of_data {byte : UInt8} (low : ByteClass.of byte = .data)
    (rest : List UInt8) :
    segments (byte :: rest) = (byte :: (segments rest).1, (segments rest).2) := by
  simp [segments, opensSegment_of_data low]

@[simp] theorem segments_cons_sysExEnd (rest : List UInt8) :
    segments (sysExEnd :: rest) = (sysExEnd :: (segments rest).1, (segments rest).2) := by
  simp [segments, opensSegment]

/-- The status of a message comes in front of a segment of its own. -/
theorem segments_cons_of_leading {byte : UInt8} (leading : IsLeading byte) (rest : List UInt8) :
    segments (byte :: rest) = ([], ⟨byte, (segments rest).1⟩ :: (segments rest).2) := by
  simp [segments, opensSegment_of_leading leading]

/-- The status of a message tells whether an end byte behind it is expected. -/
theorem withoutStrayEnds_cons_of_leading {byte : UInt8} (leading : IsLeading byte)
    (inside : Bool) (rest : List UInt8) :
    withoutStrayEnds inside (byte :: rest) =
      byte :: withoutStrayEnds (ByteClass.of byte == .sysExStart) rest := by
  rcases leading with kind | kind | kind <;> simp only [withoutStrayEnds, kind] <;> rfl

/-- Nothing is announced at the end of a stream. -/
theorem At.remaining_nil (here : At decoder position) :
    position.remaining keepsRunning [] [] = [] := by
  cases outside : position.inside with
  | false => simp [Position.remaining, here.remainder_nil outside, segmentEvents]
  | true =>
    cases position with
    | sysEx data first =>
      have bounded : data.length ≤ Assembly.capacity := Decoder.Inside.bounded here
      simp [throughEnd, isOver, sysExEvents, openPieces, SysEx.cut_of_short bounded,
        segmentEvents]
    | _ => cases outside

/-- From any position a decoder finds the events that remain in these bytes. -/
def Finds (bytes : List UInt8) : Prop :=
  ∀ ⦃decoder : Decoder⦄ ⦃position : Position⦄, At decoder position →
    (decoder.drain bytes).1 =
      position.remaining decoder.keepsRunning (segments (withoutStrayEnds position.inside bytes)).1
        (segments (withoutStrayEnds position.inside bytes)).2

/-- What a byte brings, and then what the bytes behind it bring. -/
theorem Advances.follow {byte : UInt8} {rest : List UInt8} {inside : Bool}
    {due : List UInt8 → List Segment → List Event} (advances : Advances decoder byte inside due)
    (finds : Finds rest) :
    (decoder.drain (byte :: rest)).1 =
      due (segments (withoutStrayEnds inside rest)).1
        (segments (withoutStrayEnds inside rest)).2 := by
  obtain ⟨completed, next, position, drained, there, rfl, same⟩ := advances
  have keeps : next.keepsRunning = decoder.keepsRunning := by
    rw [← decoder.keepsRunning_drain [byte], drained]
  rw [same, ← keeps, ← finds there, ← List.singleton_append, decoder.drain_append, drained]

theorem finds_nil : Finds [] := by
  intro decoder position here
  rw [Decoder.drain_nil here.clear, withoutStrayEnds, segments, here.remaining_nil]

/-- A status ends the open message or the one that waits for data, and begins its own. -/
theorem Finds.cons_leading {byte : UInt8} {rest : List UInt8} (finds : Finds rest)
    (leading : IsLeading byte) : Finds (byte :: rest) := by
  intro decoder position here
  rw [withoutStrayEnds_cons_of_leading leading, segments_cons_of_leading leading]
  cases shut : position.inside with
  | false =>
    rw [(advances_leading (here.between shut) here.valid leading).follow finds,
      Position.remaining, here.remainder_nil shut, List.nil_append]
  | true =>
    cases position with
    | sysEx data first => exact (advances_cut here leading).follow finds
    | _ => cases shut

/-- An end byte ends an open message, and is passed over elsewhere. -/
theorem Finds.cons_sysExEnd {rest : List UInt8} (finds : Finds rest) :
    Finds (sysExEnd :: rest) := by
  intro decoder position here
  have kind : ByteClass.of sysExEnd = .sysExEnd := rfl
  cases shut : position.inside with
  | false =>
    have skipped := (here.between shut).drain_sysExEnd
    rw [← List.singleton_append, decoder.drain_append, skipped, List.nil_append, finds here, shut]
    simp [withoutStrayEnds, kind]
  | true =>
    cases position with
    | sysEx data first =>
      rw [(advances_sysExEnd here).follow finds]
      simp [withoutStrayEnds, kind]
    | _ => cases shut

/-- A data byte goes on with the segment that it belongs to. -/
theorem Finds.cons_data {byte : UInt8} {rest : List UInt8} (finds : Finds rest)
    (kind : ByteClass.of byte = .data) : Finds (byte :: rest) := by
  intro decoder position here
  rw [(advances_data here kind).follow finds, withoutStrayEnds]
  simp [kind]

/-- A decoder finds the events that remain in any bytes but real-time bytes. -/
theorem finds_of_quiet {bytes : List UInt8} (quiet : ∀ byte ∈ bytes, isRealTime byte = false) :
    Finds bytes := by
  induction bytes with
  | nil => exact finds_nil
  | cons byte rest ih =>
    have finds := ih fun later member => quiet later (by simp [member])
    cases kind : ByteClass.of byte with
    | data => exact finds.cons_data kind
    | channelStatus => exact finds.cons_leading (.inl kind)
    | systemCommon => exact finds.cons_leading (.inr (.inl kind))
    | sysExStart => exact finds.cons_leading (.inr (.inr kind))
    | sysExEnd =>
      obtain rfl := ByteClass.of_eq_sysExEnd_iff.mp kind
      exact finds.cons_sysExEnd
    | realTime =>
      have loud : isRealTime byte = true := by simp [isRealTime, kind]
      rw [quiet byte (by simp)] at loud
      cases loud

/-! ## The sizes of pieces -/

theorem sized_pairs (header : UInt8) (body : List UInt8) :
    ∀ event ∈ pairs header body, SysEx.Sized event := by
  fun_induction pairs header body with
  | case1 data1 data2 rest ih => exact List.forall_mem_cons.mpr ⟨trivial, ih⟩
  | case2 => simp

theorem sized_channelEvents (header : UInt8) (body : List UInt8) :
    ∀ event ∈ channelEvents header body, SysEx.Sized event := by
  unfold channelEvents
  split
  · exact sized_pairs header body
  · exact List.forall_mem_map.mpr fun _ _ => trivial

/-- Data behind a common status bring no pieces. -/
theorem sized_commonEvents (status : UInt8) (repeats : Option UInt8) (body : List UInt8) :
    ∀ event ∈ commonEvents status repeats body, SysEx.Sized event := by
  unfold commonEvents
  dsimp only
  split
  · simp
  · refine List.forall_mem_cons.mpr ⟨trivial, ?_⟩
    cases repeats with
    | none => simp [surplusEvents]
    | some header => exact sized_channelEvents header _

/-- The pieces of a segment have at least its start byte to share. -/
theorem sized_segmentEvents (keepsRunning : Bool) (repeats : Option UInt8)
    (segments : List Segment) :
    ∀ event ∈ segmentEvents keepsRunning repeats segments, SysEx.Sized event := by
  fun_induction segmentEvents keepsRunning repeats segments with
  | case1 => simp
  | case2 repeats status body later kind ih =>
    exact List.forall_mem_append.mpr ⟨sized_channelEvents status body, ih⟩
  | case3 _ status body later kind repeats ih =>
    exact List.forall_mem_append.mpr ⟨sized_commonEvents status repeats body, ih⟩
  | case4 repeats status body later _ _ ih =>
    refine List.forall_mem_append.mpr ⟨?_, ih⟩
    have nonempty : status :: throughEnd body ≠ [] := List.cons_ne_nil _ _
    unfold sysExEvents
    split
    · exact SysEx.sized_allPieces true nonempty
    · exact SysEx.sized_openPieces true nonempty

/-- A decoder finds exactly the events of the grammar. The pieces of a system exclusive message that
are not its last are announced when the next byte of the message shows that they are full, as
pieces behind which the message goes on, and the last one when the message is over, as its end. -/
theorem pulls_eq_events (keepsRunning : Bool) (bytes : List UInt8)
    (quiet : ∀ byte ∈ bytes, isRealTime byte = false) :
    ((Decoder.initial keepsRunning).pulls bytes).filterMap (·.event?) =
        events keepsRunning bytes ∧
      ∀ event ∈ events keepsRunning bytes, SysEx.Sized event := by
  refine ⟨?_, sized_segmentEvents keepsRunning none _⟩
  rw [← Decoder.drain_fst, finds_of_quiet quiet (at_initial keepsRunning)]
  rfl

/-- A stream with an end byte outside of a message, a system common message that leaves data
over, and a message of two pieces that another one cuts short. -/
def mixedBytes : List UInt8 :=
  [0x90, 0x40, 0xF7, 0x41, 0xF3, 0x01, 0x42, 0x43] ++ 0xF0 :: List.replicate 128 0x05 ++ [0xF6]

/-- The end byte outside of a message is passed over, the data left over repeat the channel status,
and the message that is cut short ends without an end byte. -/
theorem pulls_eq_events_mixed :
    (∀ byte ∈ mixedBytes, isRealTime byte = false) ∧
      ((Decoder.initial true).pulls mixedBytes).filterMap (·.event?) =
        [.channel ⟨0x90, 0x40, 0x41, .first⟩, .common ⟨0xF3, 0x01, 0, .first⟩,
          .channel ⟨0x90, 0x42, 0x43, .first⟩,
          .sysExChunk ⟨0xF0 :: List.replicate 127 0x05, .first, true, false⟩,
          .sysExMessage ⟨[0x05], .first, false, true⟩, .common ⟨0xF6, 0, 0, .first⟩] := by
  have quiet : ∀ byte ∈ mixedBytes, isRealTime byte = false := by decide +kernel
  refine ⟨quiet, ?_⟩
  rw [(pulls_eq_events true mixedBytes quiet).1]
  decide +kernel

end MidiTransport.Stream.Grammar
