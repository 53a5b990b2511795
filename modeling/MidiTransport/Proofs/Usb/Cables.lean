import MidiTransport.Proofs.Usb.Feeding

/-!
# Cables do not disturb each other

The cables of an endpoint share the packet held back, the cable whose message was announced last
and the messages themselves. Yet what arrives on a cable depends on the packets of this cable only
(`Decoder.drain_filter_cable`): two decoders that have assembled the same on it, and hold back the
same, announce the same for a packet of this cable and stay alike on it. Packets of zeros, and
the places where the packets are cut into slices, do not matter at all
(`Decoder.cables_independent`).
-/

namespace MidiTransport.Usb.Decoder

open SysEx (Assembly)

/-- Drain slices one after the other. -/
def drainInTurn (decoder : Decoder) : List (List EventPacket) → List Event × Decoder
  | [] => ([], decoder)
  | slice :: slices =>
    let (early, next) := decoder.drain slice
    let (late, final) := next.drainInTurn slices
    (early ++ late, final)

/-- Two decoders cannot be told apart by packets of a cable. -/
structure AlikeOn (cable : Cable) (decoder other : Decoder) : Prop where
  assembly : decoder.assembly cable = other.assembly cable
  held : decoder.held = other.held

variable {decoder other next final : Decoder} {packet : EventPacket} {cable : Cable}
  {event : Event} {events : List Event} {packets : List EventPacket} {count : Nat}
  {ends : Bool}

/-! ## One packet -/

/-- Bytes of a cable bring pieces of that cable. -/
theorem cable_of_takeSysEx (taken : (decoder.takeSysEx packet count ends).2 = some event) :
    event.cable = packet.cable := by
  unfold takeSysEx announceChunk announceEnd sysExPiece at taken
  grind [Event.cable, Event.message, Message.cable, Assembly.piece]

/-- A message is on the cable of its packet. -/
theorem cable_of_feed (completed : (decoder.feed packet).2 = some event) :
    event.cable = packet.cable := by
  unfold feed takeSingleByte announceChannel announceCommon at completed
  grind [Event.cable, Event.message, Message.cable, cable_of_takeSysEx]

/-- Bytes of a cable leave what other cables assemble alone. -/
theorem assembly_takeSysEx_of_ne (elsewhere : cable ≠ packet.cable) :
    (decoder.takeSysEx packet count ends).1.assembly cable = decoder.assembly cable := by
  simp only [takeSysEx]
  split
  · split
    · split
      · exact assembly_setAssembly_of_ne elsewhere _
      · exact assembly_setAssembly_of_ne elsewhere _
    · exact assembly_setAssembly_of_ne elsewhere _
  · rfl

/-- A packet of a single byte leaves what the cables assemble alone. -/
theorem assembly_takeSingleByte (decoder : Decoder) (packet : EventPacket) (cable : Cable) :
    (decoder.takeSingleByte packet).1.assembly cable = decoder.assembly cable := by
  simp only [takeSingleByte]
  split
  · rfl
  · split <;> rfl
  · rfl

/-- A packet does not change what other cables assemble. -/
theorem assembly_feed_of_ne (elsewhere : cable ≠ packet.cable) :
    (decoder.feed packet).1.assembly cable = decoder.assembly cable := by
  unfold feed
  split
  case h_5 | h_7 | h_8 => exact assembly_takeSysEx_of_ne elsewhere
  case h_6 =>
    split
    · exact assembly_takeSysEx_of_ne elsewhere
    · rfl
  case h_16 => exact assembly_takeSingleByte decoder packet cable
  all_goals rfl

namespace AlikeOn

theorem setAssembly (alike : AlikeOn cable decoder other) (assembly : Assembly) :
    AlikeOn cable (decoder.setAssembly cable assembly) (other.setAssembly cable assembly) where
  assembly := by rw [assembly_setAssembly, assembly_setAssembly]
  held := alike.held

theorem announceChunk (alike : AlikeOn cable decoder other) :
    AlikeOn cable (decoder.announceChunk cable).1 (other.announceChunk cable).1 ∧
      (decoder.announceChunk cable).2 = (other.announceChunk cable).2 := by
  rw [announceChunk_eq rfl, announceChunk_eq alike.assembly.symm]
  exact ⟨⟨alike.assembly, alike.held⟩, rfl⟩

theorem announceEnd (alike : AlikeOn cable decoder other) :
    AlikeOn cable (decoder.announceEnd cable).1 (other.announceEnd cable).1 ∧
      (decoder.announceEnd cable).2 = (other.announceEnd cable).2 := by
  rw [announceEnd_eq rfl, announceEnd_eq alike.assembly.symm]
  exact ⟨⟨alike.assembly, alike.held⟩, rfl⟩

/-- Decoders that are alike on a cable take its bytes alike. -/
theorem takeSysEx (alike : AlikeOn packet.cable decoder other) (count : Nat) (ends : Bool) :
    AlikeOn packet.cable (decoder.takeSysEx packet count ends).1
        (other.takeSysEx packet count ends).1 ∧
      (decoder.takeSysEx packet count ends).2 = (other.takeSysEx packet count ends).2 := by
  have opened : decoder.opened packet = other.opened packet := by
    simp only [Decoder.opened, alike.assembly]
  simp only [Decoder.takeSysEx, opened]
  split
  · split
    · split
      · exact (alike.setAssembly _).announceEnd
      · exact ⟨alike.setAssembly _, rfl⟩
    · have waiting (assembly : Assembly) :
          AlikeOn packet.cable
            { decoder.setAssembly packet.cable assembly with held := some packet }
            { other.setAssembly packet.cable assembly with held := some packet } :=
        ⟨(alike.setAssembly assembly).assembly, rfl⟩
      exact (waiting _).announceChunk
  · exact ⟨alike, rfl⟩

/-- Decoders that are alike on a cable take a single byte alike. -/
theorem takeSingleByte (alike : AlikeOn cable decoder other) (packet : EventPacket) :
    AlikeOn cable (decoder.takeSingleByte packet).1 (other.takeSingleByte packet).1 ∧
      (decoder.takeSingleByte packet).2 = (other.takeSingleByte packet).2 := by
  simp only [Decoder.takeSingleByte]
  split
  · exact ⟨⟨alike.assembly, alike.held⟩, rfl⟩
  · split
    · exact ⟨⟨alike.assembly, alike.held⟩, rfl⟩
    · exact ⟨alike, rfl⟩
  · exact ⟨alike, rfl⟩

/-- A packet has the same effect on decoders that are alike on its cable. -/
theorem feed (alike : AlikeOn packet.cable decoder other) :
    AlikeOn packet.cable (decoder.feed packet).1 (other.feed packet).1 ∧
      (decoder.feed packet).2 = (other.feed packet).2 := by
  have channel (message : ChannelMessage) :
      AlikeOn packet.cable (decoder.announceChannel message).1
        (other.announceChannel message).1 :=
    ⟨alike.assembly, alike.held⟩
  have common (message : CommonMessage) :
      AlikeOn packet.cable (decoder.announceCommon message).1
        (other.announceCommon message).1 :=
    ⟨alike.assembly, alike.held⟩
  unfold Decoder.feed
  split
  case h_1 | h_2 => exact ⟨alike, rfl⟩
  case h_3 | h_4 => exact ⟨common _, rfl⟩
  case h_5 | h_7 | h_8 => exact alike.takeSysEx _ _
  case h_6 =>
    split
    · exact alike.takeSysEx 1 true
    · exact ⟨common _, rfl⟩
  case h_16 => exact alike.takeSingleByte packet
  all_goals exact ⟨channel _, rfl⟩

end AlikeOn

/-! ## A packet and what it still brings about while it is held back -/

namespace Settles

/-- What a packet brings belongs to its cable. -/
theorem cable_of_mem (settles : Settles packet decoder events final)
    (member : event ∈ events) : event.cable = packet.cable := by
  induction settles with
  | done fed cleared =>
    obtain rfl := Option.mem_toList.mp member
    exact cable_of_feed (congrArg Prod.snd fed)
  | again fed held later ih =>
    rcases List.mem_cons.mp member with rfl | member
    · exact cable_of_feed (congrArg Prod.snd fed)
    · exact ih member

/-- A packet leaves what other cables assemble alone. -/
theorem assembly_of_ne (settles : Settles packet decoder events final)
    (elsewhere : cable ≠ packet.cable) : final.assembly cable = decoder.assembly cable := by
  induction settles with
  | @done decoder next event? fed cleared =>
    have kept : (decoder.feed packet).1.assembly cable = decoder.assembly cable :=
      assembly_feed_of_ne elsewhere
    rwa [fed] at kept
  | @again decoder next final event events fed held later ih =>
    have kept : (decoder.feed packet).1.assembly cable = decoder.assembly cable :=
      assembly_feed_of_ne elsewhere
    rw [fed] at kept
    exact ih.trans kept

/-- Decoders that are alike on the packet's cable announce the same and stay alike. -/
theorem alike (settles : Settles packet decoder events final)
    (alike : AlikeOn packet.cable decoder other) :
    ∃ otherFinal, Settles packet other events otherFinal ∧
      AlikeOn packet.cable final otherFinal := by
  induction settles generalizing other with
  | @done decoder next event? fed cleared =>
    obtain ⟨still, same⟩ := alike.feed
    rw [fed] at still same
    obtain rfl : event? = (other.feed packet).2 := same
    exact ⟨_, .done rfl (still.held.symm.trans cleared), still⟩
  | @again decoder next final event events fed held later ih =>
    obtain ⟨still, same⟩ := alike.feed
    rw [fed] at still same
    have taken : AlikeOn packet.cable { next with held := none }
        { (other.feed packet).1 with held := none } := ⟨still.assembly, rfl⟩
    obtain ⟨otherFinal, otherLater, alikeFinal⟩ := ih taken
    exact ⟨otherFinal, .again (Prod.ext rfl same.symm) (still.held.symm.trans held) otherLater,
      alikeFinal⟩

end Settles

/-! ## All packets -/

/-- What arrives on a cable, and what it goes on to assemble, is decided by the packets of this
cable. -/
theorem drain_filter_cable (alike : AlikeOn cable decoder other) (clear : decoder.held = none)
    (packets : List EventPacket) :
    (decoder.drain packets).1.filter (·.cable = cable) =
        (other.drain (packets.filter (·.cable = cable))).1 ∧
      AlikeOn cable (decoder.drain packets).2
        (other.drain (packets.filter (·.cable = cable))).2 := by
  have otherClear : other.held = none := alike.held.symm.trans clear
  induction packets generalizing decoder other with
  | nil =>
    rw [List.filter_nil, drain_nil clear, drain_nil otherClear]
    exact ⟨rfl, alike⟩
  | cons packet rest ih =>
    obtain ⟨events, final, settles⟩ := exists_settles clear packet
    rw [settles.drain_cons clear, List.filter_append]
    by_cases own : packet.cable = cable
    · subst own
      obtain ⟨otherFinal, otherSettles, still⟩ := settles.alike alike
      have all : events.filter (·.cable = packet.cable) = events := by
        rw [List.filter_eq_self]
        intro event member
        simpa using settles.cable_of_mem member
      rw [List.filter_cons_of_pos (by simp), otherSettles.drain_cons otherClear, all]
      obtain ⟨same, alikeFinal⟩ := ih still settles.cleared otherSettles.cleared
      exact ⟨congrArg _ same, alikeFinal⟩
    -- Only the left decoder is given a packet of another cable, and it stays alike.
    · have none : events.filter (·.cable = cable) = [] := by
        rw [List.filter_eq_nil_iff]
        intro event member
        simpa [settles.cable_of_mem member] using own
      have still : AlikeOn cable final other :=
        ⟨(settles.assembly_of_ne (Ne.symm own)).trans alike.assembly,
          settles.cleared.trans otherClear.symm⟩
      rw [List.filter_cons_of_neg (by simpa using own), none]
      exact ih still settles.cleared otherClear

/-- Packets of zeros bring nothing and do not keep the others from being read. -/
theorem drain_filter_zero (clear : decoder.held = none) (packets : List EventPacket) :
    decoder.drain (packets.filter (· ≠ .zero)) = decoder.drain packets := by
  induction packets generalizing decoder with
  | nil => rfl
  | cons packet rest ih =>
    obtain ⟨events, final, settles⟩ := exists_settles clear packet
    by_cases zero : packet = .zero
    · subst zero
      have parts := decoder.drain_append [.zero] rest
      rw [drain_zero clear] at parts
      rw [List.filter_cons_of_neg (by simp), ih clear]
      exact parts.symm
    · rw [List.filter_cons_of_pos (by simpa using zero), settles.drain_cons clear,
        settles.drain_cons clear, ih settles.cleared]

/-- Slices bring what all their packets bring. -/
theorem drainInTurn_eq_drain (clear : decoder.held = none) (slices : List (List EventPacket)) :
    decoder.drainInTurn slices = decoder.drain slices.flatten := by
  induction slices generalizing decoder with
  | nil => exact (drain_nil clear).symm
  | cons slice slices ih =>
    rw [List.flatten_cons, drain_append, ← ih (decoder.held_drain slice)]
    rfl

/-- A cable's messages are those of its own packets, as if no other packets had been read. It does
not matter how the packets are cut into slices, and with how many packets of zeros among them. -/
theorem cables_independent (packets : List EventPacket) (slices : List (List EventPacket))
    (sliced : slices.flatten.filter (· ≠ .zero) = packets.filter (· ≠ .zero)) :
    initial.drainInTurn slices = initial.drain packets ∧
      ∀ cable, (initial.drain packets).1.filter (·.cable = cable) =
        (initial.drain (packets.filter (·.cable = cable))).1 := by
  constructor
  · rw [drainInTurn_eq_drain rfl, ← drain_filter_zero rfl, sliced, drain_filter_zero rfl]
  · intro cable
    exact (drain_filter_cable ⟨rfl, rfl⟩ rfl packets).1

/-- A long message on the first cable, with messages on two other cables before its end. The last
of its bytes before these find no room. -/
def crossedPackets : List EventPacket :=
  ⟨0x04, 0xF0, 0x01, 0x02⟩ :: ⟨0x14, 0xF0, 0x11, 0x12⟩ ::
    List.replicate 42 ⟨0x04, 0x03, 0x04, 0x05⟩ ++
    [⟨0x2F, 0xF8, 0x00, 0x00⟩, ⟨0x15, 0xF7, 0x00, 0x00⟩, ⟨0x06, 0x06, 0xF7, 0x00⟩]

/-- The packets in slices, with packets of zeros. -/
def crossedSlices : List (List EventPacket) :=
  [[.zero, ⟨0x04, 0xF0, 0x01, 0x02⟩], [],
    ⟨0x14, 0xF0, 0x11, 0x12⟩ :: List.replicate 42 ⟨0x04, 0x03, 0x04, 0x05⟩,
    [.zero, ⟨0x2F, 0xF8, 0x00, 0x00⟩, .zero, ⟨0x15, 0xF7, 0x00, 0x00⟩],
    [⟨0x06, 0x06, 0xF7, 0x00⟩, .zero]]

/-- The messages of the cables come in the order of their ends, with a full piece in front of them,
and each cable brings the same on its own. -/
theorem cables_independent_crossed :
    crossedSlices.flatten.filter (· ≠ .zero) = crossedPackets.filter (· ≠ .zero) ∧
      (initial.drainInTurn crossedSlices).1 =
        [.sysExChunk ⟨[0xF0, 0x01, 0x02] ++ (List.replicate 41 [0x03, 0x04, 0x05]).flatten,
            .ofNibble 0, true, false⟩,
          .realTime ⟨0xF8, .ofNibble 2⟩,
          .sysExMessage ⟨[0xF0, 0x11, 0x12, 0xF7], .ofNibble 1, true, true⟩,
          .sysExMessage ⟨[0x03, 0x04, 0x05, 0x06, 0xF7], .ofNibble 0, false, true⟩] ∧
      (initial.drain (crossedPackets.filter (·.cable = .ofNibble 1))).1 =
        [.sysExMessage ⟨[0xF0, 0x11, 0x12, 0xF7], .ofNibble 1, true, true⟩] := by
  have sliced : crossedSlices.flatten.filter (· ≠ .zero) = crossedPackets.filter (· ≠ .zero) := by
    decide +kernel
  obtain ⟨slicing, own⟩ := cables_independent crossedPackets crossedSlices sliced
  refine ⟨sliced, ?_, ?_⟩
  · rw [slicing]
    decide +kernel
  · rw [← own]
    decide +kernel

end MidiTransport.Usb.Decoder
