import MidiTransport.Proofs.Stream.Guards
import MidiTransport.Proofs.Usb.Guards

/-!
# Decoders are safe on all inputs

Whatever bytes or packets decoders read, their states stay sound, they announce no empty piece of a
system exclusive message, and what they assemble fits into buffers of fixed size, none of whose
guards fails.
-/

namespace MidiTransport

/-- Decoders that have pulled messages from any inputs are in a sound state. The next pull announces
no empty piece there, and behind one that is not the last it holds back what the piece after it starts
with. Guarded pulls from the same inputs have a result, which is the same. -/
theorem safe_of_pulls :
    (∀ (keepsRunning : Bool) (inputs : List (List UInt8)),
      ((Stream.Decoder.initial keepsRunning).run inputs).Sound ∧
      (∀ input, (((Stream.Decoder.initial keepsRunning).run inputs).pull input).Announced) ∧
      ∃ buffer, (Stream.Decoder.initial keepsRunning).guardedRun .blank inputs =
          some ((Stream.Decoder.initial keepsRunning).run inputs, buffer) ∧
        buffer.Holds ((Stream.Decoder.initial keepsRunning).run inputs).sysEx) ∧
    ∀ inputs : List (List Usb.EventPacket),
      (Usb.Decoder.initial.run inputs).Sound ∧
      (∀ input, ((Usb.Decoder.initial.run inputs).pull input).Announced) ∧
      ∃ buffers, Usb.Decoder.initial.guardedRun (Vector.replicate _ .blank) inputs =
          some (Usb.Decoder.initial.run inputs, buffers) ∧
        (Usb.Decoder.initial.run inputs).HeldBy buffers := by
  constructor
  · intro keepsRunning inputs
    have start := Stream.Decoder.sound_initial keepsRunning
    have reached := start.run inputs
    exact ⟨reached, reached.announced_pull,
      start.exists_guardedRun SysEx.Buffer.holds_blank inputs⟩
  · intro inputs
    have reached := Usb.Decoder.sound_initial.run inputs
    exact ⟨reached, reached.announced_pull,
      Usb.Decoder.heldBy_initial.exists_guardedRun inputs⟩

/-- Behind 128 bytes of a message a stream goes on with the next byte, and behind 126 bytes a cable
goes on with the bytes of the next packet. -/
theorem safe_of_long_messages :
    ((Stream.Decoder.initial false).pull
        (0xF0 :: List.replicate 128 0x01)).decoder.resume.1.sysEx.data = [0x01] ∧
      ((Usb.Decoder.initial.pull (⟨0x24, 0xF0, 0x01, 0x02⟩ ::
        List.replicate 42 ⟨0x24, 0x01, 0x02, 0x03⟩)).decoder.resume.1.assembly
          (.ofNibble 2)).data = [0x01, 0x02, 0x03] := by
  constructor
  · have announced := (safe_of_pulls.1 false []).2.1 (0xF0 :: List.replicate 128 0x01)
    obtain ⟨-, byte, held, -, -, data⟩ := announced.continued
      ⟨0xF0 :: List.replicate 127 0x01, .first, true, false⟩ (by decide +kernel)
    have waits : ((Stream.Decoder.initial false).pull
        (0xF0 :: List.replicate 128 0x01)).decoder.held = some 0x01 := by
      decide +kernel
    obtain rfl := Option.some.inj (held.symm.trans waits)
    exact data
  · have announced := (safe_of_pulls.2 []).2.1
      (⟨0x24, 0xF0, 0x01, 0x02⟩ :: List.replicate 42 ⟨0x24, 0x01, 0x02, 0x03⟩)
    obtain ⟨-, packet, share, held, -, shared, -, data⟩ := announced.continued
      ⟨[0xF0, 0x01, 0x02] ++ (List.replicate 41 [0x01, 0x02, 0x03]).flatten, .ofNibble 2, true, false⟩
      (by decide +kernel)
    have waits : (Usb.Decoder.initial.pull (⟨0x24, 0xF0, 0x01, 0x02⟩ ::
        List.replicate 42 ⟨0x24, 0x01, 0x02, 0x03⟩)).decoder.held =
          some ⟨0x24, 0x01, 0x02, 0x03⟩ := by
      decide +kernel
    obtain rfl := Option.some.inj (held.symm.trans waits)
    cases shared
    exact data

end MidiTransport
