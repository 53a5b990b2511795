import MidiTransport.Proofs.Message.Chunks
import MidiTransport.Proofs.Stream.Conversation
import MidiTransport.Stream.Encoder

/-!
# A conversation over a byte stream

What an encoder writes is one of the spellings that a decoder follows: an encoder leaves out a
status byte only if the decoder still has it as its running status (`Encoder.Agrees`). The two
forget a running status for different reasons, but an encoder forgets it whenever a decoder
does. So a decoder finds all messages again, whether status bytes are left out or not
(`joined_drain_write`). It finds a system exclusive message when its end byte has been sent, and
`joined_messages_write_late` is about a last chunk that comes later.
-/

namespace MidiTransport.Stream

open Decoder (Spells SpellsAll runningAfter)

/-- A call of an encoder. -/
inductive Encoder.Call where
  | encode (message : Message)
  | reset
  deriving DecidableEq, Repr

/-- The message that a call writes. -/
def Encoder.Call.message? : Encoder.Call → Option Message
  | encode message => some message
  | reset => none

/-- The messages that calls write, in order. -/
def writtenMessages (calls : List Encoder.Call) : List Message := calls.filterMap (·.message?)

namespace Encoder

variable {encoder : Encoder} {running : Option UInt8} {message : Message}

/-- The bytes that calls write, one call after the other. -/
def write (encoder : Encoder) : List Call → List UInt8
  | [] => []
  | .encode message :: later => (encoder.encode message).1 ++ (encoder.encode message).2.write later
  | .reset :: later => encoder.reset.write later

/-- The encoder has no running status, or it has the one of the decoder. -/
def Agrees (encoder : Encoder) (running : Option UInt8) : Prop :=
  encoder.running = 0 ∨ running = some encoder.running

theorem agrees_reset (encoder : Encoder) (running : Option UInt8) :
    encoder.reset.Agrees running :=
  .inl rfl

/-- A status byte is only left out if the decoder has it. -/
theorem Agrees.spells_channel {channel : ChannelMessage} (agrees : encoder.Agrees running)
    (formed : channel.WellFormed) :
    Spells running (.channel channel) (encoder.encode (.channel channel)).1 ∧
      (encoder.encode (.channel channel)).2.Agrees (some channel.header) := by
  unfold encode
  dsimp only
  split
  · rename_i omitted
    obtain ⟨-, same⟩ : encoder.compresses = true ∧ channel.header = encoder.running := by
      simpa [omits] using omitted
    have status : encoder.running ≠ 0 := same ▸ ne_zero_of_channelStatus formed.header
    exact ⟨.inr ⟨(agrees.resolve_left status).trans (congrArg some same.symm), rfl⟩,
      .inr (congrArg some same)⟩
  · exact ⟨.inl rfl, .inr rfl⟩

/-- The encoder spells a message, and stays in agreement with the decoder, in both of the
decoder's modes. -/
theorem Agrees.spells {inside : Bool} (agrees : encoder.Agrees running)
    (fits : message.Fits inside) (keepsRunning : Bool) :
    Spells running message (encoder.encode message).1 ∧
      (encoder.encode message).2.Agrees (runningAfter keepsRunning running message) := by
  cases message with
  | channel channel => exact agrees.spells_channel fits.2
  | common common => exact ⟨rfl, agrees_reset _ _⟩
  | realTime realTime => exact ⟨rfl, agrees⟩
  | sysEx piece => exact ⟨rfl, agrees_reset _ _⟩

/-- The bytes of all calls spell the messages that are written. -/
theorem Agrees.spellsAll {inside : Bool} {calls : List Call} (agrees : encoder.Agrees running)
    (orderly : Orderly inside (writtenMessages calls)) (keepsRunning : Bool) :
    SpellsAll keepsRunning running (writtenMessages calls) (encoder.write calls) := by
  induction calls generalizing encoder running inside with
  | nil => exact .nil
  | cons call later ih =>
    cases call with
    | encode message =>
      obtain ⟨fits, orderlyLater⟩ := orderly
      obtain ⟨here, after⟩ := agrees.spells fits keepsRunning
      exact .cons here (ih after orderlyLater)
    | reset => exact ih (agrees_reset encoder running) orderly

end Encoder

/-! ## What is heard of calls -/

/-- The call as it shows in the bytes. A chunk without bytes only makes the encoder forget its
running status. -/
def Encoder.Call.heard : Call → Call
  | .encode message => message.heard?.elim .reset .encode
  | .reset => .reset

/-- A call shows the message that is heard of it. -/
theorem Encoder.Call.message?_heard (call : Call) :
    call.heard.message? = call.message?.bind (·.heard?) := by
  cases call with
  | reset => rfl
  | encode message => cases heard : message.heard? <;> simp [Call.heard, Call.message?, heard]

/-- Of the messages that are written those show that are heard. -/
theorem writtenMessages_heard (calls : List Encoder.Call) :
    writtenMessages (calls.map (·.heard)) = (writtenMessages calls).filterMap (·.heard?) := by
  simp only [writtenMessages, List.filterMap_map, List.filterMap_filterMap]
  exact List.filterMap_congr fun call _ => call.message?_heard

/-- A call writes the same bytes, and leaves the same encoder, whether a receiver hears of it
or not. -/
theorem Encoder.encode_heard (encoder : Encoder) (message : Message) (later : List Call) :
    encoder.write ((Call.encode message).heard :: later) =
      (encoder.encode message).1 ++ (encoder.encode message).2.write later := by
  cases message with
  | sysEx piece =>
    by_cases silent : piece.data = []
    · simp [Call.heard, Message.heard?_sysEx_of_nil silent, write, encode, silent]
    · simp [Call.heard, Message.heard?_sysEx_of_ne_nil silent, write, encode, SysExPiece.ofBytes]
  | _ => rfl

/-- The bytes of all calls do not tell chunks without bytes from a reset. -/
theorem Encoder.write_heard (encoder : Encoder) (calls : List Call) :
    encoder.write (calls.map (·.heard)) = encoder.write calls := by
  induction calls generalizing encoder with
  | nil => rfl
  | cons call later ih =>
    cases call with
    | encode message => rw [List.map_cons, encode_heard, ih, write]
    | reset => exact ih encoder.reset

/-- A decoder in either mode finds what is heard of the messages that have been written, in order
and on the first cable, when the pieces of system exclusive messages are joined on both sides. In
the end nothing is left over. -/
theorem joined_messages_write (compresses keepsRunning : Bool) {calls : List Encoder.Call}
    (sequenced : Sequenced none (writtenMessages calls)) :
    joined [] ((Decoder.initial keepsRunning).messages ((Encoder.initial compresses).write calls)) =
        joined [] (((writtenMessages calls).filterMap (·.heard?)).map (·.onFirstCable)) ∧
      (joined [] (((writtenMessages calls).filterMap (·.heard?)).map (·.onFirstCable))).2 = [] := by
  have orderly : Orderly false (writtenMessages (calls.map (·.heard))) := by
    rw [writtenMessages_heard]
    exact sequenced.orderly
  have agrees : (Encoder.initial compresses).Agrees none := .inl rfl
  have spells := agrees.spellsAll orderly keepsRunning
  rw [Encoder.write_heard] at spells
  obtain ⟨same, finished⟩ := (Decoder.follows_initial keepsRunning).drain_all orderly spells
  rw [writtenMessages_heard] at same finished
  exact ⟨same.trans (Prod.ext rfl finished.symm), finished⟩

/-- A decoder in either mode finds the messages that have been written, in order and on the first
cable, when the chunks of a system exclusive message are put together at the place of the one
that brings the end byte. That is the place of its last chunk, up to chunks without bytes: to put
all chunks together there gives the same messages exactly if no real-time message comes in between.
It makes no difference whether the encoder leaves out repeated status bytes, nor where it is
reset. -/
theorem joined_drain_write (compresses keepsRunning : Bool) (calls : List Encoder.Call)
    (sequenced : Sequenced none (writtenMessages calls)) :
    joined [] ((Decoder.initial keepsRunning).messages ((Encoder.initial compresses).write calls)) =
        joined [] (((writtenMessages calls).filterMap (·.heard?)).map (·.onFirstCable)) ∧
      (joined [] (((writtenMessages calls).filterMap (·.heard?)).map (·.onFirstCable))).2 = [] ∧
      (joined [] ((Decoder.initial keepsRunning).messages
          ((Encoder.initial compresses).write calls)) =
            joined [] ((writtenMessages calls).map (·.onFirstCable)) ↔
        Prompt none (writtenMessages calls)) ∧
      ∀ other : Bool,
        joined [] ((Decoder.initial keepsRunning).messages ((Encoder.initial other).write calls)) =
          joined [] ((Decoder.initial keepsRunning).messages
            ((Encoder.initial compresses).write calls)) := by
  obtain ⟨finds, finished⟩ := joined_messages_write compresses keepsRunning sequenced
  refine ⟨finds, finished, ?_, fun other => ?_⟩
  · rw [finds]
    exact sequenced.heardBehind_eq_joined_iff
  · exact (joined_messages_write other keepsRunning sequenced).1.trans finds.symm

/-- A repeated status byte on both sides of a system common message, of a message in four chunks
that clock bytes interrupt, and of a reset. The first chunk and the last one have no bytes. -/
def repetitiveCalls : List Encoder.Call :=
  [.encode (.channel ⟨0x90, 0x40, 0x41, .ofNibble 3⟩),
    .encode (.channel ⟨0x90, 0x42, 0x43, .first⟩),
    .encode (.common ⟨0xF3, 0x02, 0, .first⟩),
    .encode (.channel ⟨0x90, 0x44, 0x45, .first⟩),
    .encode (.sysEx ⟨[], .first, true, false⟩),
    .encode (.realTime ⟨0xFA, .first⟩),
    .encode (.sysEx ⟨[0xF0, 0x01], .first, false, false⟩),
    .encode (.realTime ⟨0xF8, .first⟩),
    .encode (.sysEx ⟨[0x02, 0xF7], .first, false, false⟩),
    .encode (.sysEx ⟨[], .first, false, true⟩),
    .encode (.channel ⟨0xC5, 0x11, 0, .first⟩), .reset,
    .encode (.channel ⟨0xC5, 0x12, 0, .first⟩)]

/-- A status is repeated and left out, and a message in several chunks comes out whole behind the
real-time messages that interrupt it. -/
theorem joined_drain_write_repetitive :
    Sequenced none (writtenMessages repetitiveCalls) ∧
      joined [] ((Decoder.initial false).messages ((Encoder.initial true).write repetitiveCalls)) =
        ([.channel ⟨0x90, 0x40, 0x41, .first⟩, .channel ⟨0x90, 0x42, 0x43, .first⟩,
            .common ⟨0xF3, 0x02, 0, .first⟩, .channel ⟨0x90, 0x44, 0x45, .first⟩,
            .realTime ⟨0xFA, .first⟩, .realTime ⟨0xF8, .first⟩,
            .sysEx ⟨[0xF0, 0x01, 0x02, 0xF7], .first, true, true⟩,
            .channel ⟨0xC5, 0x11, 0, .first⟩, .channel ⟨0xC5, 0x12, 0, .first⟩],
          []) := by
  have sequenced : Sequenced none (writtenMessages repetitiveCalls) :=
    ⟨⟨rfl, by decide⟩, ⟨rfl, by decide⟩, ⟨rfl, by decide⟩, ⟨rfl, by decide⟩, ⟨rfl, nofun⟩, rfl,
      ⟨rfl, nofun⟩, rfl, ⟨rfl, nofun⟩, ⟨rfl, fun _ => ⟨[0x01, 0x02], by decide +kernel, rfl⟩⟩,
      ⟨rfl, by decide⟩, ⟨rfl, by decide⟩, rfl⟩
  refine ⟨sequenced, ?_⟩
  rw [(joined_drain_write true false repetitiveCalls sequenced).1]
  rfl

/-- A clock byte between the end byte of a message and its last chunk, which has no bytes. -/
def lateCalls : List Encoder.Call :=
  [.encode (.sysEx ⟨[0xF0, 0x01, 0xF7], .first, true, false⟩), .encode (.realTime ⟨0xF8, .first⟩),
    .encode (.sysEx ⟨[], .first, false, true⟩)]

/-- The decoder finds the message before the clock byte, but its last chunk comes behind. -/
theorem joined_messages_write_late :
    Sequenced none (writtenMessages lateCalls) ∧
      joined [] ((Decoder.initial false).messages ((Encoder.initial false).write lateCalls)) =
        ([.sysEx ⟨[0xF0, 0x01, 0xF7], .first, true, true⟩, .realTime ⟨0xF8, .first⟩], []) ∧
      joined [] ((writtenMessages lateCalls).map (·.onFirstCable)) =
        ([.realTime ⟨0xF8, .first⟩, .sysEx ⟨[0xF0, 0x01, 0xF7], .first, true, true⟩], []) ∧
      joined [] ((Decoder.initial false).messages ((Encoder.initial false).write lateCalls)) ≠
        joined [] ((writtenMessages lateCalls).map (·.onFirstCable)) := by
  have sequenced : Sequenced none (writtenMessages lateCalls) :=
    ⟨⟨rfl, nofun⟩, rfl, ⟨rfl, fun _ => ⟨[0x01], by decide +kernel, rfl⟩⟩, rfl⟩
  refine ⟨sequenced, ?_, rfl, ?_⟩
  · rw [(joined_messages_write false false sequenced).1]
    rfl
  · rw [(joined_messages_write false false sequenced).1]
    decide

end MidiTransport.Stream
