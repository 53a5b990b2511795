import MidiTransport.Proofs.Message.Sequence
import MidiTransport.Proofs.Stream.Situation

/-!
# A decoder that follows a sender

A sender writes orderly messages and may leave out the status byte of a channel message
when the decoder still has it as its running status. A decoder that reads the bytes finds
the messages again, except that it cuts system exclusive messages in its own way.
`Follows` relates the two during such a conversation and `Follows.drain_message` says that
one more message keeps them related.
-/

namespace MidiTransport.Stream.Decoder

open SysEx (Assembly cut openPieces allPieces)

variable {decoder : Decoder} {running : Option UInt8}

/-! ## Whole messages -/

/-- The data bytes behind a running status are a message. -/
theorem Ready.drain_channel {message : ChannelMessage} (ready : decoder.Ready (some message.header))
    (formed : message.WellFormed) :
    ∃ next,
      decoder.drain message.dataBytes = ([.channel { message with cable := .first }], next) ∧
      next.Ready (some message.header) := by
  cases long : message.hasTwoDataBytes with
  | false =>
    obtain ⟨next, drained, again⟩ := ready.drain_short formed.header long formed.data1
    refine ⟨next, ?_, again⟩
    simp [ChannelMessage.dataBytes, long, drained, formed.unused long]
  | true =>
    have early := ready.drain_first formed.header long formed.data1
    obtain ⟨next, late, again⟩ := ready.drain_second message.data1 formed.header formed.data2
    refine ⟨next, ?_, again⟩
    simp only [ChannelMessage.dataBytes, long, if_true]
    exact drain_trans early late

/-- A status byte and its data bytes are a message. -/
theorem Between.drain_channel {message : ChannelMessage} (between : decoder.Between running)
    (formed : message.WellFormed) :
    ∃ next,
      decoder.drain (message.header :: message.dataBytes) =
        ([.channel { message with cable := .first }], next) ∧
      next.Ready (some message.header) := by
  obtain ⟨middle, early, ready⟩ := between.drain_channelStatus formed.header
  obtain ⟨next, late, again⟩ := ready.drain_channel formed
  exact ⟨next, drain_trans early late, again⟩

/-- Between messages a common message is found as it was sent, on the first cable. -/
theorem Between.drain_common {message : CommonMessage} (between : decoder.Between running)
    (formed : message.WellFormed) :
    ∃ next,
      decoder.drain (message.header :: message.dataBytes) =
        ([.common { message with cable := .first }], next) ∧
      next.Ready decoder.keptRunning := by
  by_cases bare : systemCommonDataCount message.header = 0
  · have none1 : message.data1 = 0 := formed.unused1 (by simp [CommonMessage.dataCount, bare])
    have none2 : message.data2 = 0 := formed.unused2 (by simp [CommonMessage.dataCount, bare])
    obtain ⟨next, drained, ready⟩ := between.drain_bareCommon formed.header bare
    refine ⟨next, ?_, ready⟩
    simp [CommonMessage.dataBytes, CommonMessage.dataCount, bare, drained, none1, none2]
  · obtain ⟨middle, early, expecting⟩ := between.drain_commonStatus formed.header bare
    by_cases one : systemCommonDataCount message.header = 1
    · have none2 : message.data2 = 0 := formed.unused2 (by simp [CommonMessage.dataCount, one])
      obtain ⟨next, late, ready⟩ := expecting.drain_only formed.header one formed.data1
      refine ⟨next, ?_, ready⟩
      simp only [CommonMessage.dataBytes, CommonMessage.dataCount, one, none2]
      exact drain_trans early late
    · have two : systemCommonDataCount message.header = 2 := by
        unfold systemCommonDataCount at *
        grind
      have first := expecting.drain_first formed.header two formed.data1
      obtain ⟨next, late, ready⟩ := expecting.drain_second message.data1 formed.header formed.data2
      refine ⟨next, ?_, ready⟩
      simp only [CommonMessage.dataBytes, CommonMessage.dataCount, two]
      exact drain_trans early (drain_trans first late)

/-- The rest of a system exclusive message, up to its end byte. -/
theorem Inside.drain_rest {data body : List UInt8} {first : Bool}
    (inside : decoder.Inside data first)
    (low : ∀ byte ∈ body, ByteClass.of byte = .data) :
    ∃ next,
      decoder.drain (body ++ [sysExEnd]) = (allPieces first (data ++ body ++ [sysExEnd]), next) ∧
      next.Ready none := by
  obtain ⟨middle, early, still⟩ := inside.drain_data low
  obtain ⟨next, late, ready⟩ := still.drain_sysExEnd
  refine ⟨next, ?_, ready⟩
  rw [drain_trans early late, allPieces, allPieces, openPieces, openPieces, openPieces,
    SysEx.cut_append first (data ++ body)]
  simp

/-! ## The conversation -/

/-- Pieces of an open message go behind what has been heard of it, and the rest of the bytes
remains. -/
theorem joined_openPieces (heard : List UInt8) (first : Bool) (bytes : List UInt8) :
    ∃ more, joined heard ((openPieces first bytes).map (·.message)) = ([], heard ++ more) ∧
      more ++ (cut first bytes).2.data = bytes := by
  refine ⟨_, ?_, SysEx.cut_data first bytes⟩
  rw [openPieces, List.map_map]
  exact joined_pieces heard _ fun _ member => SysEx.last_of_mem_cut member

/-- All pieces of a message complete what has been heard of it. -/
theorem joined_allPieces (heard : List UInt8) (first : Bool) (bytes : List UInt8) :
    joined heard ((allPieces first bytes).map (·.message)) =
      ([.sysEx ⟨heard ++ bytes, .first, true, true⟩], []) := by
  obtain ⟨more, open_, whole⟩ := joined_openPieces heard first bytes
  rw [allPieces, List.map_append, joined_append, open_]
  simp [absorb, whole]

/-- The decoder has read all that was sent. Of a system exclusive message under way these
bytes have been sent, and these have been announced in pieces. Outside of such a message
the decoder has this running status. -/
inductive Follows (decoder : Decoder) : Bool → Option UInt8 → List UInt8 → List UInt8 → Prop where
  | between {running : Option UInt8} (ready : decoder.Ready running) :
      Follows decoder false running [] []
  | within {data sent heard : List UInt8} {first : Bool} (inside : decoder.Inside data first)
      (same : heard ++ data = sent) : Follows decoder true none sent heard

theorem follows_initial (keepsRunning : Bool) : (initial keepsRunning).Follows false none [] [] :=
  .between (ready_initial keepsRunning)

theorem Follows.clear {inside : Bool} {sent heard : List UInt8}
    (follows : decoder.Follows inside running sent heard) : decoder.held = none := by
  cases follows with
  | between ready => exact ready.clear
  | within inside => exact inside.clear

/-- The bytes that a sender may write for a message, when a decoder has this running
status. -/
def Spells (running : Option UInt8) : Message → List UInt8 → Prop
  | .channel message, bytes =>
    bytes = message.header :: message.dataBytes ∨
      (running = some message.header ∧ bytes = message.dataBytes)
  | .common message, bytes => bytes = message.header :: message.dataBytes
  | .realTime message, bytes => bytes = [message.byte]
  | .sysEx piece, bytes => bytes = piece.data

/-- The running status of a decoder behind a message. -/
def runningAfter (keepsRunning : Bool) (running : Option UInt8) : Message → Option UInt8
  | .channel message => some message.header
  | .common _ => if keepsRunning then running else none
  | .realTime _ => running
  | .sysEx _ => none

/-- A piece of a system exclusive message has been begun where it may stand. -/
theorem Follows.begin_piece {inside : Bool} {sent heard : List UInt8} {piece : SysExPiece}
    (follows : decoder.Follows inside running sent heard) (fits : piece.first = !inside) :
    ∃ next data first,
      decoder.drain (if piece.first then [sysExStart] else []) = ([], next) ∧
      next.Inside data first ∧
      heard ++ data = sent ++ if piece.first then [sysExStart] else [] := by
  cases follows with
  | between ready =>
    obtain ⟨next, drained, here⟩ := ready.drain_sysExStart
    refine ⟨next, _, _, ?_, here, ?_⟩ <;> simp [fits, drained]
  | within here same =>
    refine ⟨decoder, _, _, ?_, here, ?_⟩
    · simp [fits, drain_nil here.clear]
    · simp [fits, same]

/-- A piece keeps the decoder with the sender. -/
theorem Follows.drain_piece {inside : Bool} {sent heard : List UInt8} {piece : SysExPiece}
    (follows : decoder.Follows inside running sent heard)
    (fits : (Message.sysEx piece).Fits inside) :
    ∃ received next heardAfter, decoder.drain piece.data = (received, next) ∧
      joined heard (received.map (·.message)) =
        ((absorb sent (Message.sysEx piece).onFirstCable).1, heardAfter) ∧
      next.Follows (!piece.last) none (absorb sent (Message.sysEx piece).onFirstCable).2
        heardAfter := by
  obtain ⟨firstPiece, body, low, spelled⟩ := fits
  obtain ⟨middle, data, first, early, here, same⟩ := follows.begin_piece firstPiece
  cases last : piece.last with
  | false =>
    obtain ⟨next, late, there⟩ := here.drain_data low
    obtain ⟨more, announced, whole⟩ := joined_openPieces heard first (data ++ body)
    have drained := drain_trans early late
    refine ⟨openPieces first (data ++ body), next, heard ++ more, ?_, ?_, ?_⟩
    · rw [spelled, last]
      simpa using drained
    · simp [announced, absorb, Message.onFirstCable, last]
    · simp only [absorb, Message.onFirstCable, last]
      refine .within there ?_
      rw [List.append_assoc, whole, spelled, last, ← List.append_assoc, same]
      simp
  | true =>
    obtain ⟨next, late, ready⟩ := here.drain_rest low
    have drained := drain_trans early late
    refine ⟨allPieces first (data ++ body ++ [sysExEnd]), next, [], ?_, ?_, ?_⟩
    · rw [spelled, last]
      simpa using drained
    · rw [joined_allPieces, ← List.append_assoc, ← List.append_assoc, same]
      simp [absorb, Message.onFirstCable, last, spelled]
    · simp only [absorb, Message.onFirstCable, last]
      exact .between ready

/-- One more message keeps the decoder with the sender: what it has found, joined, is what
has been sent, joined. -/
theorem Follows.drain_message {inside : Bool} {sent heard bytes : List UInt8} {message : Message}
    (follows : decoder.Follows inside running sent heard) (fits : message.Fits inside)
    (spells : Spells running message bytes) :
    ∃ received next heardAfter, decoder.drain bytes = (received, next) ∧
      joined heard (received.map (·.message)) =
        ((absorb sent message.onFirstCable).1, heardAfter) ∧
      next.Follows (message.leavesInside inside)
        (runningAfter decoder.keepsRunning running message)
        (absorb sent message.onFirstCable).2 heardAfter := by
  cases message with
  | channel message =>
    obtain ⟨rfl, formed⟩ := fits
    cases follows with
    | between ready =>
      refine ⟨[.channel { message with cable := .first }], ?_⟩
      rcases spells with rfl | ⟨rfl, rfl⟩
      · obtain ⟨next, drained, after⟩ := ready.toBetween.drain_channel formed
        exact ⟨next, [], drained, joined_singleton _ _, .between after⟩
      · obtain ⟨next, drained, after⟩ := ready.drain_channel formed
        exact ⟨next, [], drained, joined_singleton _ _, .between after⟩
  | common message =>
    obtain ⟨rfl, formed⟩ := fits
    obtain rfl : bytes = message.header :: message.dataBytes := spells
    cases follows with
    | between ready =>
      obtain ⟨next, drained, after⟩ := ready.toBetween.drain_common formed
      rw [keptRunning, ready.repeats] at after
      exact ⟨_, next, [], drained, joined_singleton _ _, .between after⟩
  | realTime message =>
    obtain rfl : bytes = [message.byte] := spells
    have kind : ByteClass.of message.byte = .realTime := by
      simpa [Message.Fits, RealTimeMessage.isValid, isRealTime] using fits
    refine ⟨_, _, heard, drain_realTime follows.clear kind, joined_singleton _ _, ?_⟩
    cases follows with
    | between ready =>
      exact .between ⟨⟨ready.clear, ready.closed, ready.repeats⟩, ready.current, ready.whole⟩
    | within here same =>
      exact .within ⟨here.clear, here.opened, here.current, here.repeats, here.whole,
        here.fresh, here.collected, here.atStart, here.bounded⟩ same
  | sysEx piece =>
    obtain rfl : bytes = piece.data := spells
    exact follows.drain_piece fits

/-! ## Whole conversations -/

/-- The bytes that a sender may write for messages, one after the other. -/
inductive SpellsAll (keepsRunning : Bool) : Option UInt8 → List Message → List UInt8 → Prop where
  | nil {running : Option UInt8} : SpellsAll keepsRunning running [] []
  | cons {running : Option UInt8} {message : Message} {later : List Message}
      {front back : List UInt8} (here : Spells running message front)
      (rest : SpellsAll keepsRunning (runningAfter keepsRunning running message) later back) :
      SpellsAll keepsRunning running (message :: later) (front ++ back)

/-- Whatever spelling the sender has chosen, the decoder finds what has been sent. In the
end nothing is left over on either side. -/
theorem Follows.drain_all {inside : Bool} {sent heard bytes : List UInt8}
    {messages : List Message} (follows : decoder.Follows inside running sent heard)
    (orderly : Orderly inside messages)
    (spells : SpellsAll decoder.keepsRunning running messages bytes) :
    joined heard (decoder.messages bytes) =
        ((joined sent (messages.map (·.onFirstCable))).1, []) ∧
      (joined sent (messages.map (·.onFirstCable))).2 = [] := by
  induction messages generalizing decoder inside running sent heard bytes with
  | nil =>
    cases spells
    obtain rfl : inside = false := orderly
    cases follows with
    | between ready => simp [Decoder.messages, drain_nil ready.clear, joined]
  | cons message later ih =>
    cases spells with
    | @cons _ _ _ front back here rest =>
      obtain ⟨fits, orderlyLater⟩ := orderly
      obtain ⟨received, next, heardAfter, drained, same, after⟩ := follows.drain_message fits here
      have kept := decoder.keepsRunning_drain front
      rw [drained] at kept
      rw [← kept] at rest after
      obtain ⟨found, finished⟩ := ih after orderlyLater rest
      rw [messages_append, Decoder.messages, drained, joined_append, same, List.map_cons, joined]
      exact ⟨by simp [found], finished⟩

end MidiTransport.Stream.Decoder
