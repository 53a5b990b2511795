import MidiTransport.Proofs.Stream.Grammar
import MidiTransport.Proofs.Usb.Cutoff

/-!
# From a byte stream to USB

The messages that a decoder finds in a byte stream, whatever bytes these are, are messages that
an encoder for USB may be given one after the other: they are well-formed, and the pieces of a
system exclusive message follow each other (`Decoder.successive_drain`). But a status byte that
cuts a system exclusive message short leaves it without an end byte, and such a message crosses
USB only if its last packet holds more than one byte (`gathered_drain_bridged`).
-/

namespace MidiTransport.Stream

open SysEx (cut openPieces allPieces)
open Grammar (At Advances Position channelEvents commonEvents surplusEvents segmentEvents pairs
  IsLeading)

variable {unfinished : Cable → Bool} {held : Cable → List UInt8}

/-! ## Messages in one piece -/

/-- A well-formed message that is not a piece of a system exclusive message. -/
def IsSingle : Message → Prop
  | .sysEx _ => False
  | message => message.ContinuesIn (fun _ => false) fun _ => []

/-- Single messages may come at any time, and leave what is under way on the cables alone. -/
theorem successive_of_single {messages : List Message}
    (single : ∀ message ∈ messages, IsSingle message) :
    Successive unfinished held messages ∧ unfinishedBehind unfinished messages = unfinished ∧
      (gathered held messages).2 = held := by
  induction messages with
  | nil => exact ⟨trivial, rfl, rfl⟩
  | cons message later ih =>
    obtain ⟨rest, same, kept⟩ := ih fun other member => single other (by simp [member])
    have here : IsSingle message := single message (by simp)
    cases message with
    | sysEx piece => cases here
    | _ => exact ⟨⟨here, rest⟩, same, kept⟩

/-- Two data bytes at a time are single messages. -/
theorem single_pairs {header : UInt8} (kind : ByteClass.of header = .channelStatus)
    (long : hasTwoDataBytes header = true) (body : List UInt8) :
    ∀ event ∈ pairs header body, IsSingle event.message := by
  fun_induction pairs header body with
  | case1 data1 data2 rest ih =>
    intro event member
    rcases List.mem_cons.mp member with rfl | later
    · exact ⟨kind, fun short => by simp [ChannelMessage.hasTwoDataBytes, long] at short⟩
    · exact ih event later
  | case2 => simp

/-- Data behind a channel status bring single messages. -/
theorem single_channelEvents {header : UInt8} (kind : ByteClass.of header = .channelStatus)
    (body : List UInt8) : ∀ event ∈ channelEvents header body, IsSingle event.message := by
  rw [channelEvents]
  split
  · rename_i long
    exact single_pairs kind long body
  · intro event member
    obtain ⟨data, -, rfl⟩ := List.mem_map.mp member
    exact ⟨kind, fun _ => rfl⟩

/-- Data behind a common status bring single messages, also those that go on with a running status.
-/
theorem single_commonEvents {status : UInt8} {repeats : Option UInt8}
    (kind : ByteClass.of status = .systemCommon)
    (valid : ∀ header ∈ repeats, ByteClass.of header = .channelStatus) (body : List UInt8) :
    ∀ event ∈ commonEvents status repeats body, IsSingle event.message := by
  rw [commonEvents]
  split
  · simp
  · intro event member
    rcases List.mem_cons.mp member with rfl | surplus
    · refine ⟨kind, fun none => ?_, fun short => ?_⟩
      · simp_all [CommonMessage.dataCount]
      · have missing : (body.take (systemCommonDataCount status)).length ≤ 1 :=
          Nat.le_trans (List.length_take_le _ _) (Nat.le_of_lt_succ short)
        simp only [List.getD_eq_getElem?_getD, List.getElem?_eq_none missing, Option.getD_none]
    · cases repeats with
      | none => simp [surplusEvents] at surplus
      | some header => exact single_channelEvents (valid header rfl) _ event surplus

/-! ## Pieces -/

/-- The bytes of a piece under way go on with the message of the first cable, or they begin a
new one. -/
structure Pends (unfinished : Cable → Bool) (held : Cable → List UInt8) (data : List UInt8)
    (first : Bool) : Prop where
  nonempty : data ≠ []
  fits : first = true ∨ unfinished .first = true
  once : Usb.StartsOnce ((if first then [] else held .first) ++ data)

/-- A byte that does not start a message goes on with the piece under way. -/
theorem Pends.concat {data : List UInt8} {first : Bool} {byte : UInt8}
    (pends : Pends unfinished held data first) (other : byte ≠ sysExStart) :
    Pends unfinished held (data ++ [byte]) first where
  nonempty := by simp
  fits := pends.fits
  once := by
    rw [← List.append_assoc]
    exact pends.once.concat (List.append_ne_nil_of_right_ne_nil _ pends.nonempty) other

/-- Full pieces go on with the message, and so does what remains behind them. -/
theorem Pends.openPieces {bytes : List UInt8} {first : Bool}
    (pends : Pends unfinished held bytes first) :
    Successive unfinished held ((openPieces first bytes).map (·.message)) ∧
      Pends (unfinishedBehind unfinished ((SysEx.openPieces first bytes).map (·.message)))
        (gathered held ((SysEx.openPieces first bytes).map (·.message))).2 (cut first bytes).2.data
        (cut first bytes).2.first := by
  rw [SysEx.openPieces, List.map_map]
  fun_induction cut first bytes generalizing unfinished held with
  | case1 first bytes short => exact ⟨trivial, pends⟩
  | case2 first bytes long more remainder equation ih =>
    rw [equation] at ih
    have split := List.take_append_drop SysEx.Assembly.capacity bytes
    have joined : (if first then [] else held .first) ++ bytes =
        SysExPiece.behind held ⟨bytes.take SysEx.Assembly.capacity, .first, first, false⟩ ++
          bytes.drop SysEx.Assembly.capacity := by
      rw [SysExPiece.behind, List.append_assoc, split]
    have once := pends.once
    rw [joined] at once
    have pendsLater : Pends (Function.update unfinished .first true)
        (Function.update held .first (SysExPiece.behind held
          ⟨bytes.take SysEx.Assembly.capacity, .first, first, false⟩))
        (bytes.drop SysEx.Assembly.capacity) false := by
      refine ⟨by simpa [List.drop_eq_nil_iff] using long, .inr (by simp), ?_⟩
      simpa using once
    obtain ⟨successive, remains⟩ := ih pendsLater
    refine ⟨⟨⟨pends.fits, by simp, once.of_append⟩, ?_⟩, remains⟩
    exact successive

/-- The last piece ends the message. -/
theorem Pends.allPieces {bytes : List UInt8} {first : Bool}
    (pends : Pends unfinished held bytes first) :
    Successive unfinished held ((allPieces first bytes).map (·.message)) := by
  obtain ⟨successive, remains⟩ := pends.openPieces
  rw [SysEx.allPieces, List.map_append]
  exact successive.append ⟨⟨remains.fits, fun _ => remains.nonempty, remains.once⟩, trivial⟩

/-! ## Positions of a decoder -/

/-- The decoder is at a position, and the bytes of a piece under way go on with its message. -/
def Tracks (decoder : Decoder) (unfinished : Cable → Bool) (held : Cable → List UInt8) : Prop :=
  ∃ position, At decoder position ∧
    ∀ data first, position = .sysEx data first → Pends unfinished held data first

/-- Outside of system exclusive messages nothing is under way. -/
theorem tracks_of_outside {decoder : Decoder} {position : Position} (here : At decoder position)
    (outside : position.inside = false) : Tracks decoder unfinished held := by
  refine ⟨position, here, ?_⟩
  rintro data first rfl
  cases outside

/-- The bytes bring messages that may follow, and leave the decoder at a position. -/
structure Yields (decoder : Decoder) (bytes : List UInt8) (unfinished : Cable → Bool)
    (held : Cable → List UInt8) : Prop where
  successive : Successive unfinished held (decoder.messages bytes)
  tracks : Tracks (decoder.drain bytes).2
    (unfinishedBehind unfinished (decoder.messages bytes))
    (gathered held (decoder.messages bytes)).2

variable {decoder : Decoder} {position : Position} {byte : UInt8}

theorem yields_nil (clear : decoder.held = none) (tracks : Tracks decoder unfinished held) :
    Yields decoder [] unfinished held := by
  constructor
  · rw [Decoder.messages, Decoder.drain_nil clear]
    trivial
  · rw [Decoder.messages, Decoder.drain_nil clear]
    exact tracks

/-- What bytes bring one part after the other may follow. -/
theorem Yields.append {front back : List UInt8} (early : Yields decoder front unfinished held)
    (late : Yields (decoder.drain front).2 back
      (unfinishedBehind unfinished (decoder.messages front))
      (gathered held (decoder.messages front)).2) :
    Yields decoder (front ++ back) unfinished held := by
  have both := decoder.messages_append front back
  constructor
  · rw [both]
    exact early.successive.append late.successive
  · rw [decoder.drain_append front back, both, unfinishedBehind_append, gathered_append]
    exact late.tracks

/-- A byte that brings single messages and leaves no system exclusive message open. -/
theorem Grammar.Advances.yields {due : List UInt8 → List Grammar.Segment → List Event}
    (advances : Advances decoder byte false due)
    (single : ∀ event ∈ due [] [], IsSingle event.message) :
    Yields decoder [byte] unfinished held := by
  obtain ⟨completed, next, position, drained, there, outside, same⟩ := advances
  have all : due [] [] = completed := by rw [same, there.remaining_nil, List.append_nil]
  have plain : ∀ message ∈ completed.map (·.message), IsSingle message :=
    List.forall_mem_map.mpr (all ▸ single)
  constructor
  · rw [Decoder.messages, drained]
    exact (successive_of_single plain).1
  · rw [Decoder.messages, drained]
    exact tracks_of_outside there outside

/-- The messages that a data byte brings outside of system exclusive messages are single ones. -/
theorem single_remaining (here : At decoder position) (outside : position.inside = false)
    (lead : List UInt8) :
    ∀ event ∈ position.remaining decoder.keepsRunning lead [], IsSingle event.message := by
  intro event member
  cases position with
  | idle =>
    rw [Grammar.remaining_idle] at member
    cases member
  | channel header given =>
    have kind : ByteClass.of header = .channelStatus := here.valid header rfl
    rw [Grammar.remaining_channel, segmentEvents, List.append_nil] at member
    exact single_channelEvents kind _ event member
  | common status given repeats =>
    have kind : ByteClass.of status = .systemCommon := by
      cases given with
      | none => exact here.1
      | some data => exact here.1
    rw [Grammar.remaining_common, segmentEvents, List.append_nil] at member
    exact single_commonEvents kind here.valid _ event member
  | sysEx data first => cases outside

/-- A data byte goes on with the message it belongs to. -/
theorem yields_data (tracks : Tracks decoder unfinished held) (low : ByteClass.of byte = .data) :
    Yields decoder [byte] unfinished held := by
  obtain ⟨position, here, pending⟩ := tracks
  cases outside : position.inside with
  | false =>
    have advances := Grammar.advances_data here low
    rw [outside] at advances
    exact advances.yields (single_remaining here outside [byte])
  | true =>
    cases position with
    | sysEx data first =>
      have other : byte ≠ sysExStart := by
        rintro rfl
        cases low
      obtain ⟨next, drained, inside⟩ := Decoder.Inside.drain_byte here low
      obtain ⟨successive, remains⟩ := ((pending data first rfl).concat other).openPieces
      constructor
      · rw [Decoder.messages, drained]
        exact successive
      · rw [Decoder.messages, drained]
        refine ⟨.sysEx _ _, inside, ?_⟩
        rintro _ _ ⟨⟩
        exact remains
    | _ => cases outside

/-- A status byte that leads a message, while no system exclusive message is open. -/
theorem yields_leading_of_outside (here : At decoder position) (outside : position.inside = false)
    (leading : IsLeading byte) : Yields decoder [byte] unfinished held := by
  have between := here.between outside
  by_cases starts : ByteClass.of byte = .sysExStart
  · obtain rfl := ByteClass.of_eq_sysExStart_iff.mp starts
    obtain ⟨next, drained, inside⟩ := between.drain_sysExStart
    have pends : Pends unfinished held [sysExStart] true :=
      ⟨by simp, .inl rfl, startsOnce_cons (by simp)⟩
    constructor
    · rw [Decoder.messages, drained]
      trivial
    · rw [Decoder.messages, drained]
      refine ⟨.sysEx _ _, inside, ?_⟩
      rintro _ _ ⟨⟩
      exact pends
  · have advances := Grammar.advances_leading between here.valid leading
    rw [beq_eq_false_iff_ne.mpr starts] at advances
    apply advances.yields
    intro event member
    rcases leading with kind | kind | kind
    · simp [segmentEvents, kind, channelEvents, pairs] at member
    · rw [segmentEvents, kind] at member
      simp only [segmentEvents, List.append_nil] at member
      refine single_commonEvents kind ?_ _ event member
      intro header kept
      split at kept
      · exact here.valid header kept
      · cases kept
    · exact absurd kind starts

/-- A status byte cuts an open message short, and the piece that it ends may follow. -/
theorem yields_leading (tracks : Tracks decoder unfinished held) (leading : IsLeading byte) :
    Yields decoder [byte] unfinished held := by
  obtain ⟨position, here, pending⟩ := tracks
  cases outside : position.inside with
  | false => exact yields_leading_of_outside here outside leading
  | true =>
    cases position with
    | sysEx data first =>
      -- The open message ends here, and the byte is then read outside of it.
      obtain ⟨closed, ready, -, drained⟩ := Decoder.Inside.drain_status here leading
      have outer : At closed .idle := ready
      have rest : Yields closed [byte]
          (unfinishedBehind unfinished ((allPieces first data).map (·.message)))
          (gathered held ((allPieces first data).map (·.message))).2 :=
        yields_leading_of_outside outer rfl leading
      constructor
      · rw [Decoder.messages, drained]
        rw [List.map_append]
        exact (pending data first rfl).allPieces.append rest.successive
      · rw [Decoder.messages, drained, List.map_append, unfinishedBehind_append, gathered_append]
        exact rest.tracks
    | _ => cases outside

/-- An end byte ends an open message, and is no message on its own. -/
theorem yields_sysExEnd (tracks : Tracks decoder unfinished held) :
    Yields decoder [sysExEnd] unfinished held := by
  obtain ⟨position, here, pending⟩ := tracks
  cases outside : position.inside with
  | false =>
    have skipped := (here.between outside).drain_sysExEnd
    constructor
    · rw [Decoder.messages, skipped]
      trivial
    · rw [Decoder.messages, skipped]
      exact tracks_of_outside here outside
  | true =>
    cases position with
    | sysEx data first =>
      obtain ⟨next, drained, ready⟩ := Decoder.Inside.drain_sysExEnd here
      have outer : At next .idle := ready
      constructor
      · rw [Decoder.messages, drained]
        exact ((pending data first rfl).concat (by decide)).allPieces
      · rw [Decoder.messages, drained]
        exact tracks_of_outside outer rfl
    | _ => cases outside

/-- A real-time message may come anywhere. -/
theorem at_realTime (here : At decoder position) (message : RealTimeMessage) :
    At { decoder with realTime := message } position := by
  cases position with
  | idle => exact ⟨⟨here.clear, here.closed, here.repeats⟩, here.current, here.whole⟩
  | channel header given =>
    cases given with
    | none =>
      obtain ⟨kind, ready⟩ := here
      exact ⟨kind, ⟨ready.clear, ready.closed, ready.repeats⟩, ready.current, ready.whole⟩
    | some data =>
      obtain ⟨kind, long, origin, ready, rfl⟩ := here
      exact ⟨kind, long, { origin with realTime := message },
        ⟨⟨ready.clear, ready.closed, ready.repeats⟩, ready.current, ready.whole⟩, rfl⟩
  | common status given repeats =>
    cases given with
    | none =>
      obtain ⟨kind, laden, valid, expecting⟩ := here
      exact ⟨kind, laden, valid, ⟨expecting.clear, expecting.closed, expecting.repeats⟩,
        expecting.current, expecting.whole⟩
    | some data =>
      obtain ⟨kind, two, valid, origin, expecting, rfl⟩ := here
      exact ⟨kind, two, valid, { origin with realTime := message },
        ⟨⟨expecting.clear, expecting.closed, expecting.repeats⟩, expecting.current,
          expecting.whole⟩, rfl⟩
  | sysEx data first =>
    exact ⟨here.clear, here.opened, here.current, here.repeats, here.whole, here.fresh,
      here.collected, here.atStart, here.bounded⟩

/-- A real time message may come at any time. -/
theorem yields_realTime (tracks : Tracks decoder unfinished held)
    (kind : ByteClass.of byte = .realTime) : Yields decoder [byte] unfinished held := by
  obtain ⟨position, here, pending⟩ := tracks
  have drained := Decoder.drain_realTime here.clear kind
  have valid : isRealTime byte = true := by simp [isRealTime, kind]
  constructor
  · rw [Decoder.messages, drained]
    exact ⟨valid, trivial⟩
  · rw [Decoder.messages, drained]
    exact ⟨position, at_realTime here _, pending⟩

/-! ## A whole stream -/

/-- Whatever the next byte is, its messages may follow. -/
theorem yields_byte (tracks : Tracks decoder unfinished held) (byte : UInt8) :
    Yields decoder [byte] unfinished held := by
  cases kind : ByteClass.of byte with
  | data => exact yields_data tracks kind
  | channelStatus => exact yields_leading tracks (.inl kind)
  | systemCommon => exact yields_leading tracks (.inr (.inl kind))
  | sysExStart => exact yields_leading tracks (.inr (.inr kind))
  | sysExEnd =>
    obtain rfl := ByteClass.of_eq_sysExEnd_iff.mp kind
    exact yields_sysExEnd tracks
  | realTime => exact yields_realTime tracks kind

/-- Whatever the bytes are, their messages may follow one another. -/
theorem Tracks.yields (tracks : Tracks decoder unfinished held) (bytes : List UInt8) :
    Yields decoder bytes unfinished held := by
  induction bytes generalizing decoder unfinished held with
  | nil =>
    obtain ⟨position, here, -⟩ := id tracks
    exact yields_nil here.clear tracks
  | cons byte rest ih =>
    have first := yields_byte tracks byte
    exact first.append (ih first.tracks)

/-- Any bytes bring messages that may be sent one after the other. -/
theorem successive_drain (keepsRunning : Bool) (bytes : List UInt8) :
    Successive (fun _ => false) (fun _ => [])
      ((Decoder.initial keepsRunning).messages bytes) :=
  have tracks : Tracks (.initial keepsRunning) (fun _ => false) fun _ => [] :=
    tracks_of_outside (Grammar.at_initial keepsRunning) rfl
  (tracks.yields bytes).successive

/-- The messages that cross USB from a byte stream. -/
def bridged (keepsRunning : Bool) (bytes : List UInt8) : List Message :=
  Usb.Decoder.initial.messages
    (Usb.Encoder.initial.encodeAll ((Decoder.initial keepsRunning).messages bytes)).1

/-- Every message of a byte stream crosses USB, in order and with its system exclusive messages in
one piece, but for those system exclusive messages whose last packet holds a single byte that is
not the end byte. Such a message is lost, and its last byte arrives as a system common message.
So the messages are preserved exactly if the stream has no such message. -/
theorem gathered_bridged (keepsRunning : Bool) (bytes : List UInt8) :
    (gathered (fun _ => []) (bridged keepsRunning bytes)).1 =
        (gathered (fun _ => []) ((Decoder.initial keepsRunning).messages bytes)).1.map
          (·.overUsb) ∧
      ((gathered (fun _ => []) (bridged keepsRunning bytes)).1 =
          (gathered (fun _ => []) ((Decoder.initial keepsRunning).messages bytes)).1 ↔
        ∀ piece, .sysEx piece ∈
            (gathered (fun _ => []) ((Decoder.initial keepsRunning).messages bytes)).1 →
          piece.data.length % 3 = 1 → piece.data.getLast? = some sysExEnd) := by
  have crossed := Usb.gathered_drain_encodeAll_of_successive (successive_drain keepsRunning bytes)
  refine ⟨crossed, ?_⟩
  rw [bridged, crossed, map_overUsb_eq_self_iff]
  simp only [SysExPiece.EndsAlone, not_and, not_not, ne_eq]

/-- A note cuts a message of four bytes short, and the fourth one arrives on its own. -/
theorem gathered_bridged_cutShort :
    (gathered (fun _ => []) ((Decoder.initial true).messages
          [0xF0, 0x01, 0x02, 0x03, 0x90, 0x40, 0x41])).1 =
        [.sysEx ⟨[0xF0, 0x01, 0x02, 0x03], .first, true, true⟩,
          .channel ⟨0x90, 0x40, 0x41, .first⟩] ∧
      (gathered (fun _ => []) (bridged true [0xF0, 0x01, 0x02, 0x03, 0x90, 0x40, 0x41])).1 =
        [.common ⟨0x03, 0, 0, .first⟩, .channel ⟨0x90, 0x40, 0x41, .first⟩] ∧
      (gathered (fun _ => []) (bridged true [0xF0, 0x01, 0x02, 0x03, 0x90, 0x40, 0x41])).1 ≠
        (gathered (fun _ => []) ((Decoder.initial true).messages
          [0xF0, 0x01, 0x02, 0x03, 0x90, 0x40, 0x41])).1 := by
  refine ⟨?_, ?_, ?_⟩ <;> decide +kernel

end MidiTransport.Stream
