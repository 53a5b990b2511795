import MidiTransport.Proofs.SysEx.Buffer
import MidiTransport.Proofs.Usb.Reassembly

/-!
# What cables assemble between pulls

Each cable assembles its own system exclusive message, but only one packet can be held back for all
of them. In every state that pulls lead to the assemblies are orderly, and only the cable of the
packet held back may have handed out a piece, with whose message the packet goes on
(`Decoder.Sound.run`). So a piece is never empty, and the packet held back starts the next one
(`Decoder.Sound.announced_pull`).
-/

namespace MidiTransport.Usb

open SysEx (Assembly)

/-- The packet goes on with a message of the cable, and does not start one. -/
structure GoesOn (cable : Cable) (packet : EventPacket) : Prop where
  unstarted : packet.byte1 ≠ sysExStart
  shared : ∃ share, packet.shareOn? cable = some share

/-- A pull announces only pieces with at least one byte. Behind a piece that is not the last one it
has held back a packet that has room, and with which the next pull starts the next piece. Whether a
piece is the last one is told by the event as it is by the piece. -/
structure Pull.Announced (pull : Pull) : Prop where
  filled : ∀ piece, pull.event?.map (·.message) = some (.sysEx piece) →
    piece.data ≠ [] ∧ piece.length ≤ Assembly.capacity
  continued : ∀ piece, pull.event? = some (.sysExChunk piece) →
    piece.last = false ∧
      ∃ packet share, pull.decoder.held = some packet ∧ packet.byte1 ≠ sysExStart ∧
        packet.shareOn? piece.cable = some share ∧
        (pull.decoder.assembly piece.cable).hasRoom share.bytes.length = true ∧
        (pull.decoder.resume.1.assembly piece.cable).data = share.bytes
  ended : ∀ piece, pull.event? = some (.sysExMessage piece) → piece.last = true

namespace Decoder

/-! ## Sound states -/

/-- A state between two pulls: whatever a cable has handed out, the packet held back goes on with
it. -/
structure Sound (decoder : Decoder) : Prop where
  orderly : ∀ cable, (decoder.assembly cable).Orderly
  goesOn : ∀ cable, (decoder.assembly cable).handedOut = true →
    ∃ packet, decoder.held = some packet ∧ GoesOn cable packet

/-- The outcome of acting on a packet is a sound state. If a piece is announced, it has at least one
byte and can be read in this state. It has been handed out if its message goes on, and the message
is closed if it does not. -/
structure Proper (outcome : Decoder × Option Event) : Prop where
  sound : outcome.1.Sound
  chunk : ∀ piece, outcome.2 = some (.sysExChunk piece) →
    piece = (outcome.1.assembly piece.cable).piece piece.cable ∧ piece.data ≠ [] ∧
      (outcome.1.assembly piece.cable).handedOut = true
  ending : ∀ piece, outcome.2 = some (.sysExMessage piece) →
    piece = (outcome.1.assembly piece.cable).piece piece.cable ∧ piece.data ≠ [] ∧
      (outcome.1.assembly piece.cable).receiving = false

variable {decoder next : Decoder} {packet : EventPacket} {cable : Cable} {assembly : Assembly}
  {bytes : List UInt8} {ends : Bool}

/-- Without a piece there is nothing to be said about one. -/
theorem Sound.proper {event? : Option Event} (sound : decoder.Sound)
    (other : ∀ event ∈ event?, ∀ piece, event.message ≠ .sysEx piece) :
    Proper (decoder, event?) where
  sound := sound
  chunk piece found := absurd rfl (other _ found piece)
  ending piece found := absurd rfl (other _ found piece)

theorem Sound.silent (sound : decoder.Sound) : Proper (decoder, none) := sound.proper (by simp)

theorem assembly_initial (cable : Cable) : initial.assembly cable = .idle :=
  Vector.getElem_replicate cable.index.isLt

theorem sound_initial : initial.Sound where
  orderly cable := by
    rw [assembly_initial]
    exact SysEx.Assembly.orderly_idle
  goesOn cable handed := by
    rw [assembly_initial] at handed
    cases handed

/-! ## Acting on a packet -/

/-- What is known of a decoder that acts on a packet: whatever a cable has handed out, the packet goes
on with it. -/
structure Expects (decoder : Decoder) (packet : EventPacket) : Prop where
  orderly : ∀ cable, (decoder.assembly cable).Orderly
  goesOn : ∀ cable, (decoder.assembly cable).handedOut = true → GoesOn cable packet

namespace Expects

/-- Only the cable of the packet may have handed out a piece. -/
theorem fresh_elsewhere (expects : decoder.Expects packet) (elsewhere : cable ≠ packet.cable) :
    (decoder.assembly cable).handedOut = false := by
  rw [← Bool.not_eq_true]
  intro handed
  obtain ⟨share, shared⟩ := (expects.goesOn cable handed).shared
  rw [EventPacket.shareOn?, if_neg (Ne.symm elsewhere)] at shared
  cases shared

/-- A packet changes what its own cable assembles, and may be held back for it. -/
theorem sound_of_own (expects : decoder.Expects packet)
    (elsewhere : ∀ cable, cable ≠ packet.cable → next.assembly cable = decoder.assembly cable)
    (own : next.assembly packet.cable = assembly) (orderly : assembly.Orderly)
    (goesOn : assembly.handedOut = true →
      next.held = some packet ∧ GoesOn packet.cable packet) : next.Sound := by
  constructor
  · intro cable
    by_cases same : cable = packet.cable
    · rw [same, own]
      exact orderly
    · rw [elsewhere cable same]
      exact expects.orderly cable
  · intro cable handed
    by_cases same : cable = packet.cable
    · subst same
      exact ⟨packet, goesOn (own ▸ handed)⟩
    · rw [elsewhere cable same, expects.fresh_elsewhere same] at handed
      cases handed

/-- A packet that goes on with no message is skipped, so nothing has been handed out. -/
theorem proper_of_closed (expects : decoder.Expects packet)
    (closed : (decoder.opened packet).receiving = false) : Proper (decoder, none) := by
  refine Sound.silent ?_
  refine expects.sound_of_own (fun _ _ => rfl) rfl (expects.orderly _) fun handed => ?_
  rw [opened_of_unstarted (expects.goesOn _ handed).unstarted] at closed
  have receiving := (expects.orderly _).receiving_of_handedOut handed
  simp [closed] at receiving

/-- Bytes that find room are added to the message, which they may end. -/
theorem proper_of_room (expects : decoder.Expects packet)
    (carries : packet.Carries packet.cable bytes ends)
    (receiving : (decoder.opened packet).receiving = true)
    (room : (decoder.opened packet).hasRoom bytes.length = true) :
    Proper (decoder.feed packet) := by
  have nonempty : bytes ≠ [] := by
    rintro rfl
    cases carries.head
  have filled := SysEx.Assembly.orderly_append nonempty room
  have elsewhere (assembly : Assembly) (cable : Cable) (apart : cable ≠ packet.cable) :
      (decoder.setAssembly packet.cable assembly).assembly cable = decoder.assembly cable :=
    assembly_setAssembly_of_ne apart assembly
  rw [feed_of_room carries receiving room]
  split
  · have own := assembly_setAssembly decoder packet.cable
      ((decoder.opened packet).append bytes).finish
    rw [announceEnd_eq own]
    constructor
    · exact expects.sound_of_own (elsewhere _) own filled.finish fun handed => by simp at handed
    · rintro piece ⟨⟩
    · rintro piece ⟨⟩
      refine ⟨congrArg (SysEx.Assembly.piece · packet.cable) own.symm, ?_,
        congrArg Assembly.receiving own⟩
      show ((decoder.opened packet).append bytes).finish.data ≠ []
      rw [SysEx.Assembly.data_finish_append]
      exact (decoder.opened packet).data_append_ne_nil nonempty
  · refine Sound.silent ?_
    exact expects.sound_of_own (elsewhere _) (assembly_setAssembly decoder _ _) filled
      fun handed => by simp at handed

/-- Bytes that find no room are held back behind those that are handed out. -/
theorem proper_of_full (expects : decoder.Expects packet)
    (carries : packet.Carries packet.cable bytes ends)
    (shared : ∃ share, packet.shareOn? packet.cable = some share)
    (receiving : (decoder.opened packet).receiving = true)
    (full : (decoder.opened packet).hasRoom bytes.length = false) :
    Proper (decoder.feed packet) := by
  have unstarted := (opened_of_full carries full).1
  rw [feed_of_full carries receiving full]
  rw [opened_of_unstarted unstarted] at receiving ⊢
  have own : { decoder.setAssembly packet.cable (decoder.assembly packet.cable).handOut with
      held := some packet }.assembly packet.cable = (decoder.assembly packet.cable).handOut :=
    assembly_setAssembly decoder _ _
  have orderly := (expects.orderly packet.cable).handOut receiving
  rw [announceChunk_eq own]
  constructor
  · exact expects.sound_of_own (fun _ apart => assembly_setAssembly_of_ne apart _) own orderly
      fun _ => ⟨rfl, unstarted, shared⟩
  · rintro piece ⟨⟩
    exact ⟨congrArg (SysEx.Assembly.piece · packet.cable) own.symm,
      (expects.orderly packet.cable).begun receiving, congrArg Assembly.handedOut own⟩
  · rintro piece ⟨⟩

/-- A packet that is expected has a proper outcome, whatever its code is. -/
theorem proper_feed (expects : decoder.Expects packet) : Proper (decoder.feed packet) := by
  cases shares : packet.share? with
  | none =>
    have alike (cable : Cable) := decoder.feed_unshared cable shares
    refine Sound.proper ?_ (alike packet.cable).2.2
    have unshared (cable : Cable) : (decoder.assembly cable).handedOut = false := by
      rw [← Bool.not_eq_true]
      intro handed
      obtain ⟨share, shared⟩ := (expects.goesOn cable handed).shared
      simp [EventPacket.shareOn?, shares] at shared
    refine expects.sound_of_own (fun cable _ => (alike cable).2.1) (alike _).2.1
      (expects.orderly _) fun handed => ?_
    simp [unshared] at handed
  | some share =>
    have shared : packet.shareOn? packet.cable = some share := by
      rw [EventPacket.shareOn?, if_pos rfl, shares]
    have carries := (EventPacket.carries_shareOn shared).1
    cases receiving : (decoder.opened packet).receiving with
    | false =>
      rw [feed_of_closed carries receiving]
      exact expects.proper_of_closed receiving
    | true =>
      cases room : (decoder.opened packet).hasRoom share.bytes.length with
      | true => exact expects.proper_of_room carries receiving room
      | false => exact expects.proper_of_full carries ⟨share, shared⟩ receiving room

end Expects

/-! ## Pulls from sound states -/

namespace Sound

/-- While no packet is held back, no cable has handed out anything. -/
theorem expects (sound : decoder.Sound) (clear : decoder.held = none) (packet : EventPacket) :
    decoder.Expects packet where
  orderly := sound.orderly
  goesOn cable handed := by
    obtain ⟨held, kept, -⟩ := sound.goesOn cable handed
    cases clear.symm.trans kept

/-- The packet held back is expected once it is taken. -/
theorem expects_held (sound : decoder.Sound) (held : decoder.held = some packet) :
    Expects { decoder with held := none } packet where
  orderly := sound.orderly
  goesOn cable handed := by
    obtain ⟨kept, same, goesOn⟩ := sound.goesOn cable handed
    cases held.symm.trans same
    exact goesOn

/-- The packet held back is the one that is expected. -/
theorem proper_resume (sound : decoder.Sound) : Proper decoder.resume := by
  unfold resume
  split
  · exact sound.silent
  · rename_i packet held
    exact (sound.expects_held held).proper_feed

theorem proper_scan (sound : decoder.Sound) (clear : decoder.held = none)
    (input : List EventPacket) :
    Proper ((decoder.scan input).decoder, (decoder.scan input).event?) := by
  induction input generalizing decoder with
  | nil => exact sound.silent
  | cons packet rest ih =>
    have fed := (sound.expects clear packet).proper_feed
    have kept (quiet : (decoder.feed packet).2 = none) := held_feed_of_none clear quiet
    unfold scan
    split
    · exact sound.silent
    · split
      · rename_i next event equation
        rwa [equation] at fed
      · rename_i next equation
        rw [equation] at fed kept
        exact ih fed.sound (kept rfl)

/-- Every pull from a sound state has a proper outcome. -/
theorem proper_pull (sound : decoder.Sound) (input : List EventPacket) :
    Proper ((decoder.pull input).decoder, (decoder.pull input).event?) := by
  have resumed := sound.proper_resume
  have kept (quiet : decoder.resume.2 = none) := held_resume_of_none quiet
  unfold pull
  split
  · rename_i next event equation
    rwa [equation] at resumed
  · rename_i next equation
    rw [equation] at resumed kept
    exact resumed.sound.proper_scan (kept rfl) input

/-- The packet that is held back when a cable has handed out its bytes starts the next piece. -/
theorem data_resume (sound : decoder.Sound)
    (handed : (decoder.assembly cable).handedOut = true) :
    ∃ packet share, decoder.held = some packet ∧ packet.byte1 ≠ sysExStart ∧
      packet.shareOn? cable = some share ∧
      (decoder.assembly cable).hasRoom share.bytes.length = true ∧
      (decoder.resume.1.assembly cable).data = share.bytes := by
  obtain ⟨packet, held, unstarted, share, shared⟩ := sound.goesOn cable handed
  obtain ⟨carries, -⟩ := EventPacket.carries_shareOn shared
  have receiving := (sound.orderly cable).receiving_of_handedOut handed
  have room : (decoder.assembly cable).hasRoom share.bytes.length = true :=
    SysEx.Assembly.hasRoom_of_handedOut handed (Nat.le_trans carries.short (by decide))
  refine ⟨packet, share, held, unstarted, shared, room, ?_⟩
  have taken : { decoder with held := none }.opened packet = decoder.assembly cable := by
    rw [opened_of_unstarted unstarted, carries.cable_eq]
    rfl
  -- What has been handed out gives way, so only the packet's own bytes are left.
  have next : ((decoder.assembly cable).append share.bytes).data = share.bytes :=
    SysEx.Assembly.data_append_of_handedOut handed share.bytes
  have fed : { decoder with held := none }.feed packet = _ :=
    feed_of_room carries (taken ▸ receiving) (taken ▸ room)
  simp only [resume, held, fed, taken]
  split
  · rw [announceEnd_eq (assembly_setAssembly _ cable _)]
    show Assembly.data (Decoder.assembly (Decoder.setAssembly _ cable _) cable) = share.bytes
    rw [assembly_setAssembly, SysEx.Assembly.data_finish_append, next]
  · rw [assembly_setAssembly, next]

end Sound

/-! ## Runs -/

/-- The decoder behind pulls, one from each of these inputs. What a pull leaves unread may be the next
input, or stand in front of it. -/
def run (decoder : Decoder) : List (List EventPacket) → Decoder
  | [] => decoder
  | input :: inputs => (decoder.pull input).decoder.run inputs

namespace Sound

/-- Every run of pulls leads from sound states to sound states. -/
theorem run (sound : decoder.Sound) (inputs : List (List EventPacket)) :
    (decoder.run inputs).Sound := by
  induction inputs generalizing decoder with
  | nil => exact sound
  | cons input inputs ih => exact ih (sound.proper_pull input).sound

/-- A pull from a sound state announces only pieces that can be read behind it. -/
theorem announced_pull (sound : decoder.Sound) (input : List EventPacket) :
    (decoder.pull input).Announced := by
  have proper := sound.proper_pull input
  constructor
  · intro piece announced
    obtain ⟨event, found, same⟩ := Option.map_eq_some_iff.mp announced
    have readable : piece = ((decoder.pull input).decoder.assembly piece.cable).piece piece.cable ∧
        piece.data ≠ [] := by
      cases event with
      | sysExChunk other =>
        cases same
        exact ⟨(proper.chunk _ found).1, (proper.chunk _ found).2.1⟩
      | sysExMessage other =>
        cases same
        exact ⟨(proper.ending _ found).1, (proper.ending _ found).2.1⟩
      | _ => cases same
    refine ⟨readable.2, ?_⟩
    rw [readable.1]
    exact (proper.sound.orderly piece.cable).bounded
  · intro piece announced
    obtain ⟨same, -, handed⟩ := proper.chunk piece announced
    have receiving := (proper.sound.orderly piece.cable).receiving_of_handedOut handed
    refine ⟨?_, proper.sound.data_resume handed⟩
    rw [same, SysEx.Assembly.piece, receiving]
    rfl
  · intro piece announced
    obtain ⟨same, -, closed⟩ := proper.ending piece announced
    rw [same, SysEx.Assembly.piece, closed]
    rfl

end Sound

end Decoder

end MidiTransport.Usb
