import MidiTransport.Proofs.Usb.Cables
import MidiTransport.Proofs.Usb.Transfers

/-!
# Reassembling system exclusive messages

Whatever the packets are, a decoder announces the system exclusive messages that they make up
(`Decoder.reassembled`). What a cable assembles is not described by the steps that lead to it:
`holding` computes it from the bytes of the open message, and every packet takes it from the bytes
in front of the packet to the bytes with it, also when the packet finds no room and is read again.
-/

namespace MidiTransport

open SysEx (Assembly)

namespace Usb

/-- What a cable assembles while a message with these bytes is open. -/
def holding (bytes : List UInt8) : Assembly :=
  ⟨lastBytes bytes, true, blockCount bytes.length == 0, false⟩

namespace Decoder

/-- The decoder assembles the message of a cable that is open. -/
structure Assembles (decoder : Decoder) (cable : Cable) (open? : Option (List UInt8)) : Prop where
  clear : decoder.held = none
  closed : open? = none → (decoder.assembly cable).receiving = false
  opened : ∀ bytes, open? = some bytes →
    decoder.assembly cable = holding bytes ∧ bytes.length % 3 = 0

variable {decoder : Decoder} {packet : EventPacket} {cable : Cable} {bytes before : List UInt8}
  {ends : Bool} {known : Transfers}

/-! ## Packets without a share in the open message -/

/-- A packet of a single byte is never held back and brings no piece. -/
theorem takeSingleByte_plain (decoder : Decoder) (packet : EventPacket) :
    (decoder.takeSingleByte packet).1.held = decoder.held ∧
      ∀ event ∈ (decoder.takeSingleByte packet).2, ∀ piece, event.message ≠ .sysEx piece := by
  simp only [takeSingleByte]
  split
  · exact ⟨rfl, by simp⟩
  · split
    · exact ⟨rfl, by simp [announceCommon]⟩
    · exact ⟨rfl, by simp⟩
  · exact ⟨rfl, by simp⟩

/-- A packet without a share is a message of its own, or none. -/
theorem feed_unshared (decoder : Decoder) (cable : Cable) (unshared : packet.share? = none) :
    (decoder.feed packet).1.held = decoder.held ∧
      (decoder.feed packet).1.assembly cable = decoder.assembly cable ∧
      ∀ event ∈ (decoder.feed packet).2, ∀ piece, event.message ≠ .sysEx piece := by
  unfold EventPacket.share? at unshared
  unfold feed
  split at unshared
  case h_1 | h_3 | h_4 => cases unshared
  case h_2 code =>
    have other : packet.byte1 ≠ sysExEnd := by simpa using unshared
    simp only [code, if_neg other]
    exact ⟨rfl, rfl, by simp [announceCommon]⟩
  case h_5 =>
    split
    case h_16 =>
      obtain ⟨held, plain⟩ := decoder.takeSingleByte_plain packet
      exact ⟨held, assembly_takeSingleByte decoder packet cable, plain⟩
    case h_5 | h_6 | h_7 | h_8 => simp_all
    all_goals exact ⟨rfl, rfl, by simp [announceCommon, announceChannel]⟩

/-- A packet without a share in a message of the cable leaves its assembly alone. -/
theorem drain_unshared (clear : decoder.held = none) (unshared : packet.shareOn? cable = none) :
    sysExOn cable (decoder.drain [packet]).1 = [] ∧
      (decoder.drain [packet]).2.assembly cable = decoder.assembly cable := by
  unfold EventPacket.shareOn? at unshared
  split at unshared
  · by_cases zero : packet = .zero
    · rw [zero, drain_zero clear]
      exact ⟨rfl, rfl⟩
    · obtain ⟨held, assembly, plain⟩ := decoder.feed_unshared cable unshared
      rw [drain_packet clear zero, drain_nil (held.trans clear), List.append_nil]
      refine ⟨sysExOn_eq_nil fun event member piece sysEx => ?_, assembly⟩
      exact absurd sysEx (plain event (Option.mem_toList.mp member) piece)
  · rename_i elsewhere
    obtain ⟨events, final, settles⟩ := exists_settles clear packet
    rw [settles.drain_eq clear]
    refine ⟨sysExOn_eq_nil fun event member piece sysEx own => ?_,
      settles.assembly_of_ne (Ne.symm elsewhere)⟩
    have cable : event.cable = piece.cable := by rw [Event.cable, sysEx]; rfl
    exact elsewhere ((settles.cable_of_mem member).symm.trans (cable.trans own))

/-- A packet with a share in no message is skipped. -/
theorem drain_stray (clear : decoder.held = none) (carries : packet.Carries cable bytes ends)
    (closed : (decoder.opened packet).receiving = false) :
    decoder.drain [packet] = ([], decoder) := by
  rw [drain_packet clear carries.nonzero, feed_of_closed carries closed, drain_nil clear]
  rfl

/-! ## Packets with a share -/

/-- There is room for bytes until the last piece would have more than its capacity. -/
theorem hasRoom_holding (before : List UInt8) (amount : Nat) :
    (holding before).hasRoom amount = true ↔
      before.length + amount ≤ blockLength * blockCount before.length + Assembly.capacity := by
  have within := (blockCount_bounds before.length).1
  have used : (holding before).used = (lastBytes before).length := rfl
  rw [Assembly.hasRoom, decide_eq_true_eq, used, length_lastBytes]
  omega

/-- Bytes that fill no piece up belong to the one under way. -/
theorem append_holding (same : blockCount (before ++ bytes).length = blockCount before.length) :
    (holding before).append bytes = holding (before ++ bytes) := by
  have within := (blockCount_bounds before.length).1
  simp only [holding, lastBytes, same, List.drop_append_of_le_length within]
  rfl

/-- The decoder adds the bytes of a packet to the open message, which they may end. -/
structure Takes (decoder : Decoder) (packet : EventPacket) (cable : Cable)
    (before bytes : List UInt8) (ends : Bool) : Prop where
  announced : Transfer.events cable ⟨before, false⟩ ++ sysExOn cable (decoder.drain [packet]).1 =
    Transfer.events cable ⟨before ++ bytes, ends⟩
  assembles : (decoder.drain [packet]).2.Assembles cable
    (if ends then none else some (before ++ bytes))

/-- Bytes that find room are added, and only the last ones are announced at once. -/
theorem drain_taken {total : List UInt8} (clear : decoder.held = none)
    (carries : packet.Carries cable bytes ends)
    (receiving : (decoder.opened packet).receiving = true)
    (room : (decoder.opened packet).hasRoom bytes.length = true)
    (kept : (decoder.opened packet).append bytes = holding total)
    (aligned : ends = false → total.length % 3 = 0) :
    sysExOn cable (decoder.drain [packet]).1 =
        (if ends then [.sysExMessage (lastPiece cable total)] else []) ∧
      (decoder.drain [packet]).2.Assembles cable (if ends then none else some total) := by
  cases ends with
  | false =>
    rw [drain_of_room clear carries receiving room, kept]
    refine ⟨rfl, clear, by simp, fun bytes same => ?_⟩
    obtain rfl := Option.some.inj same
    exact ⟨assembly_setAssembly decoder cable _, aligned rfl⟩
  | true =>
    obtain ⟨next, drained, own, -⟩ := drain_of_last_room clear carries receiving room
    have clearNext := held_drain decoder [packet]
    rw [drained] at clearNext ⊢
    refine ⟨?_, clearNext, fun _ => ?_, by simp⟩
    · rw [kept]
      exact sysExOn_message rfl []
    · rw [own, SysEx.Assembly.receiving_finish]

/-- Bytes that find room are added to the open message. -/
theorem takes_of_room (clear : decoder.held = none) (carries : packet.Carries cable bytes ends)
    (opened : decoder.opened packet = holding before)
    (aligned : ends = false → (before ++ bytes).length % 3 = 0)
    (room : (holding before).hasRoom bytes.length = true) :
    decoder.Takes packet cable before bytes ends := by
  have same : blockCount (before ++ bytes).length = blockCount before.length := by
    rw [List.length_append]
    exact blockCount_of_room ((hasRoom_holding before bytes.length).mp room)
  rw [← opened] at room
  obtain ⟨announced, assembles⟩ := drain_taken clear carries (by rw [opened]; rfl) room
    (by rw [opened, append_holding same]) aligned
  refine ⟨?_, assembles⟩
  rw [announced]
  simp [Transfer.events, blocks_of_room same]

/-- Without room the bytes in front of the packet are a full piece, which is announced. -/
theorem takes_of_full (clear : decoder.held = none) (carries : packet.Carries cable bytes ends)
    (opened : decoder.opened packet = holding before) (whole : before.length % 3 = 0)
    (aligned : ends = false → (before ++ bytes).length % 3 = 0)
    (full : (holding before).hasRoom bytes.length = false) :
    decoder.Takes packet cable before bytes ends := by
  have tight := (not_congr (hasRoom_holding before bytes.length)).mp (by simp [full])
  obtain ⟨long, further⟩ := blockCount_of_full whole carries.short (Nat.lt_of_not_le tight)
  rw [← List.length_append] at further
  obtain ⟨extended, rest⟩ := blocks_of_full cable long further
  rw [← opened] at full
  obtain ⟨goesOn, -⟩ := opened_of_full carries full
  obtain ⟨next, drained, still, own, -⟩ :=
    drain_of_full clear carries (by rw [opened]; rfl) full
  rw [opened] at drained own
  -- The packet is read again, and now finds room behind a piece that has been handed out.
  have again : next.opened packet = (holding before).handOut := by
    rw [opened_of_unstarted goesOn, carries.cable_eq, own]
  have room : (next.opened packet).hasRoom bytes.length = true := by
    rw [again]
    simpa [Assembly.hasRoom, Assembly.used, Assembly.handOut] using
      Nat.le_trans carries.short (by decide)
  have kept : (next.opened packet).append bytes = holding (before ++ bytes) := by
    rw [again, holding, holding, rest, further]
    rfl
  obtain ⟨announced, assembles⟩ :=
    drain_taken still carries (by rw [again]; rfl) room kept aligned
  have chunk : ((holding before).handOut.piece cable).cable = cable := rfl
  constructor
  · rw [drained, sysExOn_chunk chunk, announced]
    simp [Transfer.events, extended, holding, Assembly.piece, Assembly.handOut]
  · rw [drained]
    exact assembles

/-- The bytes of a packet go to the open message, whether they find room or not. -/
theorem takes_share {share : Share} (clear : decoder.held = none)
    (shared : packet.shareOn? cable = some share) (opened : decoder.opened packet = holding before)
    (whole : before.length % 3 = 0) :
    decoder.Takes packet cable before share.bytes share.ends := by
  obtain ⟨carries, three⟩ := EventPacket.carries_shareOn shared
  have aligned : share.ends = false → (before ++ share.bytes).length % 3 = 0 := by
    intro goesOn
    have length := three goesOn
    rw [List.length_append]
    omega
  cases room : (holding before).hasRoom share.bytes.length with
  | true => exact takes_of_room clear carries opened aligned room
  | false => exact takes_of_full clear carries opened whole aligned room

/-- A packet with a share in an open message goes on with it, as the transfers do. -/
theorem drain_goOn {share : Share}
    (takes : decoder.Takes packet cable before share.bytes share.ends) (earlier : List Transfer) :
    earlier.flatMap (·.events cable) ++ Transfer.events cable ⟨before, false⟩ ++
          sysExOn cable (decoder.drain [packet]).1 =
        (Transfers.goOn earlier before share).all.flatMap (·.events cable) ∧
      (decoder.drain [packet]).2.Assembles cable (Transfers.goOn earlier before share).open? := by
  have assembles := takes.assembles
  constructor
  · rw [Transfers.all_goOn, List.flatMap_append, List.flatMap_singleton, List.append_assoc,
      takes.announced]
  · unfold Transfers.goOn
    cases ends : share.ends <;> rw [ends] at assembles <;> exact assembles

/-! ## One packet and all packets -/

/-- The decoder keeps up with the messages that packets make up. -/
theorem Assembles.read (assembles : decoder.Assembles cable known.open?) (packet : EventPacket) :
    known.all.flatMap (·.events cable) ++ sysExOn cable (decoder.drain [packet]).1 =
        (known.read cable packet).all.flatMap (·.events cable) ∧
      (decoder.drain [packet]).2.Assembles cable (known.read cable packet).open? := by
  have clear := assembles.clear
  unfold Transfers.read
  split
  · rename_i unshared
    obtain ⟨silent, kept⟩ := drain_unshared clear unshared
    rw [silent, List.append_nil]
    refine ⟨rfl, held_drain _ _, fun closed => ?_, fun bytes same => ?_⟩
    · rw [kept]
      exact assembles.closed closed
    · rw [kept]
      exact assembles.opened bytes same
  · rename_i share shared
    have carries := (EventPacket.carries_shareOn shared).1
    split
    · -- The start byte discards what has been assembled, so the packet is the first of its message.
      rename_i starts
      have opened : decoder.opened packet = holding [] := by
        rw [Decoder.opened, if_pos starts]
        rfl
      have added := drain_goOn (takes_share clear shared opened rfl) known.all
      rwa [show Transfer.events cable ⟨[], false⟩ = [] from rfl, List.append_nil] at added
    · rename_i goesOn
      have opened : decoder.opened packet = decoder.assembly cable := by
        rw [opened_of_unstarted goesOn, carries.cable_eq]
      split
      · rename_i closed
        have receiving := assembles.closed closed
        rw [drain_stray clear carries (by rwa [opened]), closed]
        exact ⟨List.append_nil _, clear, fun _ => receiving, by simp⟩
      · rename_i bytes going
        obtain ⟨holds, whole⟩ := assembles.opened bytes going
        have added := drain_goOn (takes_share clear shared (opened.trans holds) whole) known.closed
        rwa [Transfers.all_of_open going, List.flatMap_append, List.flatMap_singleton]

/-- All packets of an input are read as the transfers are. -/
theorem Assembles.readAll (assembles : decoder.Assembles cable known.open?)
    (packets : List EventPacket) :
    known.all.flatMap (·.events cable) ++ sysExOn cable (decoder.drain packets).1 =
        (packets.foldl (Transfers.read cable) known).all.flatMap (·.events cable) ∧
      (decoder.drain packets).2.Assembles cable
        (packets.foldl (Transfers.read cable) known).open? := by
  induction packets generalizing decoder known with
  | nil =>
    rw [drain_nil assembles.clear]
    exact ⟨List.append_nil _, assembles⟩
  | cons packet later ih =>
    obtain ⟨here, next⟩ := assembles.read packet
    obtain ⟨rest, final⟩ := ih next
    have parts := decoder.drain_append [packet] later
    rw [List.singleton_append] at parts
    rw [parts, List.foldl_cons, ← rest, ← here, sysExOn, List.filter_append, List.append_assoc]
    exact ⟨rfl, final⟩

/-- Whatever the packets are, a decoder announces the system exclusive messages of a cable that they
make up, with events that follow from their bytes: full pieces behind which a message goes on, and
the last piece of one that is complete. A packet ends a message exactly if it completes one, and a
packet that goes on with no message leaves no trace. -/
theorem reassembled (cable : Cable) (packets : List EventPacket) :
    sysExOn cable (initial.drain packets).1 =
        (transfers cable packets).all.flatMap (·.events cable) ∧
      (∀ transfer ∈ (transfers cable packets).all,
        Conveys (transfer.events cable) transfer) ∧
      (∀ packet, (sysExOn cable ((initial.drain packets).2.drain [packet]).1).countP (·.endsSysEx) =
        ((transfers cable packets).completes cable packet).toNat) ∧
      ∀ packet rest, (packet.shareOn? cable).isSome → packet.byte1 ≠ sysExStart →
        (transfers cable packets).open? = none →
        initial.drain (packets ++ packet :: rest) = initial.drain (packets ++ rest) := by
  have fresh : initial.Assembles cable (⟨[], none⟩ : Transfers).open? :=
    ⟨rfl, fun _ => by simp [initial, Decoder.assembly, Assembly.idle], by simp⟩
  obtain ⟨announced, assembles⟩ := fresh.readAll packets
  refine ⟨announced, fun transfer member => ?_, fun packet => ?_, fun packet rest shared goesOn
    closed => ?_⟩
  · refine conveys_events cable fun _ empty => ?_
    have head := started_transfers cable packets transfer member
    rw [empty] at head
    cases head
  · have counted := congrArg (List.countP (·.endsSysEx)) (assembles.read packet).1
    rw [List.countP_append, countP_events, countP_events, Transfers.countP_read] at counted
    exact Nat.add_left_cancel counted
  · obtain ⟨share, shared⟩ := Option.isSome_iff_exists.mp shared
    have carries := (EventPacket.carries_shareOn shared).1
    have receiving : ((initial.drain packets).2.opened packet).receiving = false := by
      rw [opened_of_unstarted goesOn, carries.cable_eq]
      exact assembles.closed closed
    have skipped := (initial.drain packets).2.drain_append [packet] rest
    rw [drain_stray assembles.clear carries receiving, List.singleton_append] at skipped
    rw [drain_append, drain_append, skipped]
    rfl

/-- The start of a message, which is then given up for another one, and packets behind which a piece
has room for two more bytes. -/
def fillingPackets : List EventPacket :=
  [⟨0x04, 0xF0, 0x01, 0x02⟩, ⟨0x04, 0xF0, 0x03, 0x04⟩] ++
    List.replicate 41 ⟨0x04, 0x05, 0x06, 0x07⟩

/-- A last packet of two bytes still finds room, one of three bytes does not. -/
theorem reassembled_filled :
    sysExOn .first (initial.drain (fillingPackets ++ [⟨0x06, 0x08, 0xF7, 0x00⟩])).1 =
        [.sysExMessage ⟨[0xF0, 0x03, 0x04] ++
          (List.replicate 41 [0x05, 0x06, 0x07]).flatten ++ [0x08, 0xF7], .first, true, true⟩] ∧
      sysExOn .first (initial.drain (fillingPackets ++ [⟨0x07, 0x08, 0x09, 0xF7⟩])).1 =
        [.sysExChunk ⟨[0xF0, 0x03, 0x04] ++
            (List.replicate 41 [0x05, 0x06, 0x07]).flatten, .first, true, false⟩,
          .sysExMessage ⟨[0x08, 0x09, 0xF7], .first, false, true⟩] := by
  rw [(reassembled _ _).1, (reassembled _ _).1]
  decide +kernel

end Decoder

end Usb

end MidiTransport
