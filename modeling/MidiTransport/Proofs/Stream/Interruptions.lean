import MidiTransport.Proofs.Stream.Slicing

/-!
# Real-time bytes between the bytes of other messages

A real-time byte may stand at any place of a stream, also between the bytes of another message.
It completes a message of its own, and the decoder goes on as if the byte had not been there: only
the last real-time message differs, which no other byte asks for. So other messages are the same
without real-time bytes, and the same bytes complete them
(`Decoder.arrivals_interrupted`). To tell which byte completes a message, an `Arrival` has
the input behind this byte along with the message.
-/

namespace MidiTransport.Stream

/-- An event and the input behind the byte that brings it about. -/
structure Arrival where
  event : Event
  behind : List UInt8
  deriving DecidableEq

/-- What a pull has found, if anything. All that the pull has not read stands behind it. -/
def Pull.arrival? (pull : Pull) : Option Arrival := pull.event?.map (⟨·, pull.rest⟩)

/-- The messages in an input as they arrive. -/
def Decoder.arrivals (decoder : Decoder) (input : List UInt8) : List Arrival :=
  (decoder.pulls input).filterMap (·.arrival?)

/-- An input without its real-time bytes. -/
def withoutRealTime (input : List UInt8) : List UInt8 := input.filter (· < 0xF8)

/-- The real-time bytes of an input, each as a message that arrives with this byte. -/
def realTimeArrivals : List UInt8 → List Arrival
  | [] => []
  | byte :: rest =>
    if 0xF8 ≤ byte then ⟨.realTime ⟨byte, .first⟩, rest⟩ :: realTimeArrivals rest
    else realTimeArrivals rest

namespace Arrival

/-- The arrival of the same message in the input without real-time bytes. -/
def withoutRealTime (arrival : Arrival) : Arrival :=
  { arrival with behind := Stream.withoutRealTime arrival.behind }

/-- One message arrives before another. A single byte may complete several messages, but no more
than one if it is a real-time byte. -/
def Before (one later : Arrival) : Prop :=
  later.behind.length < one.behind.length ∨
    later.behind = one.behind ∧
      one.event.isRealTime = false ∧ later.event.isRealTime = false

end Arrival

namespace Decoder

variable {decoder next final : Decoder} {byte : UInt8} {event : Event}
  {events : List Event} {input : List UInt8}

/-! ## What other bytes do to the last real-time message -/

theorem takeChannelData_realTime (decoder : Decoder) (header data : UInt8)
    (last : RealTimeMessage) :
    { decoder with realTime := last }.takeChannelData header data =
      ({ (decoder.takeChannelData header data).1 with realTime := last },
        (decoder.takeChannelData header data).2) := by
  simp only [takeChannelData]
  split
  · rfl
  · split <;> rfl

theorem takeCommonData_realTime (decoder : Decoder) (header data : UInt8)
    (last : RealTimeMessage) :
    { decoder with realTime := last }.takeCommonData header data =
      ({ (decoder.takeCommonData header data).1 with realTime := last },
        (decoder.takeCommonData header data).2) := by
  simp only [takeCommonData]
  split
  · rfl
  · split <;> rfl

theorem takeData_realTime (decoder : Decoder) (data : UInt8) (last : RealTimeMessage) :
    { decoder with realTime := last }.takeData data =
      ({ (decoder.takeData data).1 with realTime := last }, (decoder.takeData data).2) := by
  simp only [takeData]
  split
  · rfl
  · split
    · split <;> rfl
    · exact takeChannelData_realTime decoder _ data last
    · exact takeCommonData_realTime decoder _ data last

/-- A status byte does the same whatever the last real-time message was. -/
theorem takeStatus_realTime (decoder : Decoder) (status : UInt8) (last : RealTimeMessage) :
    { decoder with realTime := last }.takeStatus status =
      ({ (decoder.takeStatus status).1 with realTime := last },
        (decoder.takeStatus status).2) := by
  simp only [takeStatus]
  split
  · simp only [closeSysEx]
    split
    · split <;> rfl
    · rfl
  · split
    · rfl
    · rfl
    · simp only [openCommon]
      split <;> rfl
    · rfl

/-- Other bytes neither ask for the last real-time message nor replace it. -/
theorem feed_of_quiet (quiet : isRealTime byte = false) (last : RealTimeMessage) :
    { decoder with realTime := last }.feed byte =
      ({ (decoder.feed byte).1 with realTime := last }, (decoder.feed byte).2) := by
  unfold feed
  split
  · exact takeData_realTime decoder byte last
  · rename_i kind
    simp [isRealTime, kind] at quiet
  · exact takeStatus_realTime decoder byte last

/-- A byte settles in the same way whatever the last real-time message was. -/
theorem Settles.of_quiet (settles : Settles byte decoder events final)
    (quiet : isRealTime byte = false) (last : RealTimeMessage) :
    Settles byte { decoder with realTime := last } events { final with realTime := last } := by
  induction settles with
  | done fed cleared => exact .done (by rw [feed_of_quiet quiet, fed]) cleared
  | @again decoder next final event events fed held later ih =>
    have also : { decoder with realTime := last }.feed byte =
        ({ next with realTime := last }, some event) := by
      rw [feed_of_quiet quiet, fed]
    exact .again also held ih

/-! ## Which messages are real-time messages -/

/-- A data byte brings no real-time message. -/
theorem isRealTime_of_takeData (taken : (decoder.takeData byte).2 = some event) :
    event.isRealTime = false := by
  unfold takeData takeChannelData takeCommonData handOut at taken
  grind [Event.isRealTime]

/-- A status byte outside of real time brings no real-time message. -/
theorem isRealTime_of_takeStatus (taken : (decoder.takeStatus byte).2 = some event) :
    event.isRealTime = false := by
  unfold takeStatus closeSysEx openCommon handOut at taken
  grind [Event.isRealTime]

/-- Only a real-time byte completes a real-time message. -/
theorem isRealTime_of_feed (quiet : isRealTime byte = false)
    (completed : (decoder.feed byte).2 = some event) : event.isRealTime = false := by
  unfold feed at completed
  split at completed
  · exact isRealTime_of_takeData completed
  · rename_i kind
    simp [isRealTime, kind] at quiet
  · exact isRealTime_of_takeStatus completed

/-- Only a real-time byte brings a real-time message. -/
theorem Settles.isRealTime_of_mem (settles : Settles byte decoder events final)
    (quiet : isRealTime byte = false) (member : event ∈ events) :
    event.isRealTime = false := by
  induction settles with
  | done fed cleared =>
    obtain rfl := Option.mem_toList.mp member
    exact isRealTime_of_feed quiet (congrArg Prod.snd fed)
  | again fed held later ih =>
    rcases List.mem_cons.mp member with rfl | member
    · exact isRealTime_of_feed quiet (congrArg Prod.snd fed)
    · exact ih member

/-! ## Arrivals byte by byte -/

/-- Nothing arrives without input. -/
theorem arrivals_nil (clear : decoder.held = none) : decoder.arrivals [] = [] := by
  rw [arrivals, pulls_nil clear]
  rfl

/-- A byte held back has nothing but the input behind it. -/
theorem arrivals_of_held (held : decoder.held = some byte) :
    decoder.arrivals input = { decoder with held := none }.arrivals (byte :: input) := by
  rw [arrivals, arrivals, pulls_congr (pull_of_held held)]

/-- What a byte brings arrives in front of what the bytes behind it bring. -/
theorem arrivals_cons (clear : decoder.held = none) (byte : UInt8) (input : List UInt8) :
    decoder.arrivals (byte :: input) =
      (decoder.feed byte).2.toList.map (⟨·, input⟩) ++
        (decoder.feed byte).1.arrivals input := by
  generalize fed : decoder.feed byte = outcome
  obtain ⟨next, event?⟩ := outcome
  cases event? with
  | none =>
    rw [arrivals, pulls_congr (pull_cons_of_none clear fed)]
    rfl
  | some event =>
    have start : decoder.pull (byte :: input) = ⟨next, some event, input⟩ :=
      pull_cons_of_some clear fed
    rw [arrivals, pulls_of_some (by rw [start]), start]
    rfl

/-- The messages of a byte arrive with it, and all others behind it. -/
theorem Settles.arrivals_cons (settles : Settles byte decoder events final)
    (clear : decoder.held = none) (input : List UInt8) :
    decoder.arrivals (byte :: input) =
      events.map (⟨·, input⟩) ++ final.arrivals input := by
  induction settles with
  | done fed cleared => rw [Decoder.arrivals_cons clear, fed]
  | again fed held later ih =>
    rw [Decoder.arrivals_cons clear, fed, arrivals_of_held held, ih rfl]
    rfl

/-- A byte either is a message of its own or completes messages that are not real-time. -/
theorem arrivals_cons_cases (clear : decoder.held = none) (byte : UInt8) (input : List UInt8) :
    (isRealTime byte = true ∧
      decoder.arrivals (byte :: input) =
        ⟨.realTime ⟨byte, .first⟩, input⟩ ::
          { decoder with realTime := ⟨byte, .first⟩ }.arrivals input) ∨
    (isRealTime byte = false ∧
      ∃ events final, Settles byte decoder events final ∧ final.held = none ∧
        (∀ event ∈ events, event.isRealTime = false) ∧
        decoder.arrivals (byte :: input) =
          events.map (⟨·, input⟩) ++ final.arrivals input) := by
  cases kind : isRealTime byte with
  | true => exact .inl ⟨rfl, (settles_realTime kind clear).arrivals_cons clear input⟩
  | false =>
    obtain ⟨events, final, settles⟩ := exists_settles clear byte
    exact .inr ⟨rfl, events, final, settles, settles.cleared,
      fun event member => settles.isRealTime_of_mem kind member,
      settles.arrivals_cons clear input⟩

/-! ## Arrivals of whole inputs -/

/-- Each real-time byte arrives as a message of its own, and no other byte does. -/
theorem realTimeArrivals_eq_filter (clear : decoder.held = none) (input : List UInt8) :
    (decoder.arrivals input).filter (·.event.isRealTime) = realTimeArrivals input := by
  induction input generalizing decoder with
  | nil => rw [arrivals_nil clear]; rfl
  | cons byte rest ih =>
    rcases arrivals_cons_cases clear byte rest with
      ⟨loud, split⟩ | ⟨quiet, events, final, settles, cleared, others, split⟩
    · rw [split, realTimeArrivals, if_pos (isRealTime_iff.mp loud), List.filter_cons_of_pos rfl]
      exact congrArg _ (ih clear)
    · have none : (events.map (Arrival.mk · rest)).filter (·.event.isRealTime) = [] := by
        simpa [List.filter_eq_nil_iff] using others
      have low : ¬ 0xF8 ≤ byte := UInt8.not_le.mpr (isRealTime_eq_false_iff.mp quiet)
      rw [split, realTimeArrivals, if_neg low, List.filter_append, none, ih cleared]
      rfl

/-- Without the real-time bytes the same bytes complete the other messages, whichever real-time
message was the last one. -/
theorem arrivals_withoutRealTime (clear : decoder.held = none) (last : RealTimeMessage)
    (input : List UInt8) :
    { decoder with realTime := last }.arrivals (withoutRealTime input) =
      ((decoder.arrivals input).filter (!·.event.isRealTime)).map
        Arrival.withoutRealTime := by
  induction input generalizing decoder with
  | nil =>
    rw [arrivals_nil clear]
    exact arrivals_nil clear
  | cons byte rest ih =>
    rcases arrivals_cons_cases clear byte rest with
      ⟨loud, split⟩ | ⟨quiet, events, final, settles, cleared, others, split⟩
    · have skipped : withoutRealTime (byte :: rest) = withoutRealTime rest := by
        simp [withoutRealTime, isRealTime_iff.mp loud]
      rw [split, skipped, List.filter_cons_of_neg (by simp [Event.isRealTime])]
      have clear' : { decoder with realTime := ⟨byte, .first⟩ }.held = none := clear
      exact ih clear'
    · have kept : withoutRealTime (byte :: rest) = byte :: withoutRealTime rest := by
        simp [withoutRealTime, isRealTime_eq_false_iff.mp quiet]
      have all : (events.map (Arrival.mk · rest)).filter (!·.event.isRealTime) =
          events.map (Arrival.mk · rest) := by
        simpa [List.filter_eq_self] using others
      rw [kept, (settles.of_quiet quiet last).arrivals_cons clear, split, List.filter_append, all,
        List.map_append, List.map_map, ih cleared]
      rfl

/-- A message arrives with a byte of the input and has the rest of the input behind it. -/
theorem exists_of_mem_arrivals (clear : decoder.held = none) {arrival : Arrival}
    (member : arrival ∈ decoder.arrivals input) :
    ∃ front byte, front ++ byte :: arrival.behind = input := by
  induction input generalizing decoder with
  | nil => simp [arrivals_nil clear] at member
  | cons byte rest ih =>
    obtain ⟨events, final, settles⟩ := exists_settles clear byte
    rw [settles.arrivals_cons clear, List.mem_append, List.mem_map] at member
    rcases member with ⟨event, -, rfl⟩ | later
    · exact ⟨[], byte, rfl⟩
    · obtain ⟨front, last, parts⟩ := ih settles.cleared later
      exact ⟨byte :: front, last, congrArg (byte :: ·) parts⟩

/-- Something has been read whenever a message arrives. -/
theorem behind_lt_of_mem_arrivals (clear : decoder.held = none) {arrival : Arrival}
    (member : arrival ∈ decoder.arrivals input) : arrival.behind.length < input.length := by
  obtain ⟨front, byte, rfl⟩ := exists_of_mem_arrivals clear member
  rw [List.length_append, List.length_cons]
  omega

/-- Messages arrive in the order of the bytes that bring them. -/
theorem pairwise_arrivals (clear : decoder.held = none) (input : List UInt8) :
    (decoder.arrivals input).Pairwise Arrival.Before := by
  induction input generalizing decoder with
  | nil => rw [arrivals_nil clear]; exact .nil
  | cons byte rest ih =>
    rcases arrivals_cons_cases clear byte rest with
      ⟨loud, split⟩ | ⟨quiet, events, final, settles, cleared, others, split⟩
    · rw [split]
      refine .cons ?_ (ih clear)
      intro later member
      have clear' : { decoder with realTime := ⟨byte, .first⟩ }.held = none := clear
      exact .inl (behind_lt_of_mem_arrivals clear' member)
    · rw [split, List.pairwise_append]
      refine ⟨?_, ih cleared, ?_⟩
      · rw [List.pairwise_map]
        refine List.pairwise_of_forall_mem_list ?_
        intro one oneMember later laterMember
        exact .inr ⟨rfl, others one oneMember, others later laterMember⟩
      · intro one oneMember later laterMember
        obtain ⟨event, -, rfl⟩ := List.mem_map.mp oneMember
        exact .inl (behind_lt_of_mem_arrivals cleared laterMember)

/-- Real-time bytes do not disturb other messages: those arrive with the same bytes, and are the
same, in the input without real-time bytes. The real-time messages are the real-time bytes of the
input. Each message arrives with a byte of the input, behind those of earlier bytes and before those
of later bytes. -/
theorem arrivals_interrupted (keepsRunning : Bool) (input : List UInt8) :
    ((initial keepsRunning).arrivals input).filter (·.event.isRealTime) =
        realTimeArrivals input ∧
      (((initial keepsRunning).arrivals input).filter (!·.event.isRealTime)).map
          Arrival.withoutRealTime =
        (initial keepsRunning).arrivals (withoutRealTime input) ∧
      (∀ arrival ∈ (initial keepsRunning).arrivals input,
        ∃ front byte, front ++ byte :: arrival.behind = input) ∧
      ((initial keepsRunning).arrivals input).Pairwise Arrival.Before := by
  refine ⟨realTimeArrivals_eq_filter rfl input, ?_, ?_, pairwise_arrivals rfl input⟩
  · exact (arrivals_withoutRealTime rfl .blank input).symm
  · intro arrival member
    exact exists_of_mem_arrivals rfl member

/-- One byte is held back at a full piece, another one cuts the message short, and a real-time byte
follows each of them. -/
example :
    (initial true).arrivals
        (sysExStart :: List.replicate 127 0x11 ++
          [0xF8, 0x12, 0xFA, 0x90, 0xFE, 0x40, 0xFF, 0x41]) =
      [⟨.realTime ⟨0xF8, .first⟩, [0x12, 0xFA, 0x90, 0xFE, 0x40, 0xFF, 0x41]⟩,
        ⟨.sysExChunk ⟨sysExStart :: List.replicate 127 0x11, .first, true, false⟩,
          [0xFA, 0x90, 0xFE, 0x40, 0xFF, 0x41]⟩,
        ⟨.realTime ⟨0xFA, .first⟩, [0x90, 0xFE, 0x40, 0xFF, 0x41]⟩,
        ⟨.sysExMessage ⟨[0x12], .first, false, true⟩, [0xFE, 0x40, 0xFF, 0x41]⟩,
        ⟨.realTime ⟨0xFE, .first⟩, [0x40, 0xFF, 0x41]⟩,
        ⟨.realTime ⟨0xFF, .first⟩, [0x41]⟩,
        ⟨.channel ⟨0x90, 0x40, 0x41, .first⟩, []⟩] := by
  decide +kernel

end Decoder

end MidiTransport.Stream
