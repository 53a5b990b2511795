import MidiTransport.Proofs.Usb.Groups

/-!
# The messages that packets make up

The packets of a cable say by themselves which system exclusive messages they make up: a packet with
a start byte opens a message and gives up one that is open, other packets go on with it, and a last
packet completes it (`transfers`). The events that announce a message follow from its bytes
(`Transfer.events`): a piece is full when it has no room for three more bytes, so all pieces but the
last one have the same length (`conveys_events`).
-/

namespace MidiTransport.Usb

open SysEx (Assembly)

/-! ## Full pieces -/

/-- The bytes of a piece in front of others: as many packets of three bytes as it has room for. -/
def blockLength : Nat := 126

/-- The number of full pieces that are announced in front of the last bytes of a message. A piece is
announced only when a packet finds no room behind it. -/
def blockCount (length : Nat) : Nat := (length - 3) / blockLength

section Blocks

variable {length amount : Nat}

/-- Behind all full pieces there is at least one byte, and no more than a piece has room for. -/
theorem blockCount_bounds (length : Nat) :
    blockLength * blockCount length ≤ length ∧
      length ≤ blockLength * blockCount length + Assembly.capacity ∧
      (0 < length → blockLength * blockCount length < length) := by
  unfold blockCount blockLength Assembly.capacity
  omega

/-- Bytes that find room fill no piece up. -/
theorem blockCount_of_room
    (room : length + amount ≤ blockLength * blockCount length + Assembly.capacity) :
    blockCount (length + amount) = blockCount length := by
  unfold blockCount blockLength Assembly.capacity at *
  omega

/-- Whole packets leave room for two bytes, so only three bytes find none. -/
theorem blockCount_of_full (aligned : length % 3 = 0) (short : amount ≤ 3)
    (full : blockLength * blockCount length + Assembly.capacity < length + amount) :
    length = blockLength * (blockCount length + 1) ∧
      blockCount (length + amount) = blockCount length + 1 := by
  unfold blockCount blockLength Assembly.capacity at *
  omega

end Blocks

/-- The bytes of a full piece. -/
def block (bytes : List UInt8) (index : Nat) : List UInt8 :=
  (bytes.drop (blockLength * index)).take blockLength

/-- The bytes behind all full pieces. -/
def lastBytes (bytes : List UInt8) : List UInt8 :=
  bytes.drop (blockLength * blockCount bytes.length)

/-- The full pieces of a message. -/
def blocks (cable : Cable) (bytes : List UInt8) : List SysExPiece :=
  (List.range (blockCount bytes.length)).map fun index =>
    ⟨block bytes index, cable, index == 0, false⟩

/-- The piece that ends a message. -/
def lastPiece (cable : Cable) (bytes : List UInt8) : SysExPiece :=
  ⟨lastBytes bytes, cable, blockCount bytes.length == 0, true⟩

/-- A system exclusive message, or as much of it as arrives. -/
structure Transfer where
  bytes : List UInt8
  /-- Its last packet has arrived. -/
  complete : Bool
  deriving DecidableEq, Repr

/-- The events that announce a message. It goes on behind every full piece, and the last piece of a
message that is complete ends it. -/
def Transfer.events (cable : Cable) (transfer : Transfer) : List Event :=
  (blocks cable transfer.bytes).map .sysExChunk ++
    if transfer.complete then [.sysExMessage (lastPiece cable transfer.bytes)] else []

/-- The events convey a message, as far as it arrives: in full pieces behind which it goes on, and
in a last piece if it is complete. The pieces agree with the events about which one is the last. -/
structure Conveys (events : List Event) (transfer : Transfer) : Prop where
  part : events.flatMap (·.sysExData) <+: transfer.bytes
  whole : transfer.complete = true → events.flatMap (·.sysExData) = transfer.bytes
  nonempty : transfer.complete = true → events ≠ []
  full : ∀ index piece, events[index]? = some (.sysExChunk piece) →
    piece.length = 126 ∧ (piece.first = true ↔ index = 0) ∧ piece.last = false
  rest : ∀ index piece, events[index]? = some (.sysExMessage piece) →
    1 ≤ piece.length ∧ piece.length ≤ 128 ∧ (piece.first = true ↔ index = 0) ∧ piece.last = true
  kinds : ∀ index event, events[index]? = some event →
    if transfer.complete = true ∧ index + 1 = events.length then ∃ piece, event = .sysExMessage piece
    else ∃ piece, event = .sysExChunk piece

section Pieces

variable {cable : Cable} {bytes more : List UInt8} {index : Nat}

/-- The last bytes are those that are not in full pieces. -/
theorem length_lastBytes (bytes : List UInt8) :
    (lastBytes bytes).length = bytes.length - blockLength * blockCount bytes.length :=
  List.length_drop

/-- A full piece does not depend on what follows it. -/
theorem block_append (within : blockLength * (index + 1) ≤ bytes.length) (more : List UInt8) :
    block (bytes ++ more) index = block bytes index := by
  rw [Nat.mul_add, Nat.mul_one] at within
  rw [block, block, List.drop_append_of_le_length (by omega),
    List.take_append_of_le_length (by rw [List.length_drop]; omega)]

/-- The full pieces stay the same as long as no other one is filled up. -/
theorem blocks_of_room (same : blockCount (bytes ++ more).length = blockCount bytes.length) :
    blocks cable (bytes ++ more) = blocks cable bytes := by
  have bounds := (blockCount_bounds bytes.length).1
  rw [blocks, blocks, same]
  refine List.map_congr_left fun index member => ?_
  have within := Nat.mul_le_mul_left blockLength (List.mem_range.mp member)
  rw [block_append (Nat.le_trans within bounds)]

/-- A packet that finds no room completes a full piece with the bytes in front of it. -/
theorem blocks_of_full (cable : Cable)
    (whole : bytes.length = blockLength * (blockCount bytes.length + 1))
    (further : blockCount (bytes ++ more).length = blockCount bytes.length + 1) :
    blocks cable (bytes ++ more) = blocks cable bytes ++
        [⟨lastBytes bytes, cable, blockCount bytes.length == 0, false⟩] ∧
      lastBytes (bytes ++ more) = more := by
  have own : block bytes (blockCount bytes.length) = lastBytes bytes := by
    have long := whole
    rw [Nat.mul_succ] at long
    rw [block, lastBytes, List.take_of_length_le]
    rw [List.length_drop]
    omega
  constructor
  · rw [blocks, further, List.range_succ, List.map_append]
    congr 1
    · refine List.map_congr_left fun index member => ?_
      have within := Nat.mul_le_mul_left blockLength (Nat.le_succ_of_le (List.mem_range.mp member))
      rw [block_append (Nat.le_trans within (Nat.le_of_eq whole.symm))]
    · rw [List.map_singleton, block_append (Nat.le_of_eq whole.symm), own]
  · rw [lastBytes, further, ← whole, List.drop_left]

/-- The full pieces hold all bytes but the last ones. -/
theorem data_blocks (cable : Cable) (bytes : List UInt8) :
    (blocks cable bytes).flatMap (·.data) =
      bytes.take (blockLength * blockCount bytes.length) := by
  rw [blocks, List.flatMap_map]
  induction blockCount bytes.length with
  | zero => rfl
  | succ count ih =>
    rw [List.range_succ, List.flatMap_append, ih, List.flatMap_singleton, Nat.mul_succ,
      List.take_add]
    rfl

/-- A full piece has 126 bytes, and only the one in front starts the message. -/
theorem getElem?_blocks {piece : SysExPiece} (found : (blocks cable bytes)[index]? = some piece) :
    index < blockCount bytes.length ∧ piece.length = 126 ∧
      piece.first = (index == 0) ∧ piece.last = false := by
  have bounds := (blockCount_bounds bytes.length).1
  simp only [blocks, List.getElem?_map, Option.map_eq_some_iff] at found
  obtain ⟨same, inside, rfl⟩ := found
  obtain ⟨within, rfl⟩ := List.getElem?_eq_some_iff.mp inside
  rw [List.length_range] at within
  have before := Nat.mul_le_mul_left blockLength within
  rw [Nat.mul_succ] at before
  refine ⟨within, ?_, by simp, rfl⟩
  simp only [SysExPiece.length, block, List.length_take, List.length_drop, List.getElem_range]
  unfold blockLength at *
  omega

@[simp] theorem length_blocks (cable : Cable) (bytes : List UInt8) :
    (blocks cable bytes).length = blockCount bytes.length := by
  simp [blocks]

/-- An event announces a full piece, or the last one of a message that is complete. -/
theorem getElem?_events {transfer : Transfer} {event : Event}
    (found : (transfer.events cable)[index]? = some event) :
    (index < blockCount transfer.bytes.length ∧
        ∃ piece, event = .sysExChunk piece ∧ piece.length = 126 ∧
          piece.first = (index == 0) ∧ piece.last = false) ∨
      (index = blockCount transfer.bytes.length ∧ transfer.complete = true ∧
        event = .sysExMessage (lastPiece cable transfer.bytes)) := by
  rw [Transfer.events, List.getElem?_append, List.length_map] at found
  split at found
  · rw [List.getElem?_map, Option.map_eq_some_iff] at found
    obtain ⟨piece, inside, rfl⟩ := found
    obtain ⟨within, known⟩ := getElem?_blocks inside
    exact .inl ⟨within, piece, rfl, known⟩
  · rename_i behind
    rw [length_blocks] at found behind
    cases complete : transfer.complete with
    | false => simp [complete] at found
    | true =>
      rw [complete, if_pos rfl, List.getElem?_singleton] at found
      simp only [Option.ite_none_right_eq_some, Option.some.injEq] at found
      exact .inr ⟨by omega, rfl, found.2.symm⟩

/-- A message is announced by its full pieces, and by one more event if it is complete. -/
theorem length_events (cable : Cable) (transfer : Transfer) :
    (transfer.events cable).length =
      blockCount transfer.bytes.length + transfer.complete.toNat := by
  unfold Transfer.events
  cases transfer.complete <;> simp

/-- The events of a message that is complete hold all of its bytes, and the others hold those of the
full pieces. -/
theorem data_events (cable : Cable) (transfer : Transfer) :
    (transfer.events cable).flatMap (·.sysExData) =
      if transfer.complete then transfer.bytes
      else transfer.bytes.take (blockLength * blockCount transfer.bytes.length) := by
  have full : (blocks cable transfer.bytes).flatMap (fun piece => (Event.sysExChunk piece).sysExData)
      = transfer.bytes.take (blockLength * blockCount transfer.bytes.length) :=
    data_blocks cable transfer.bytes
  rw [Transfer.events, List.flatMap_append, List.flatMap_map, full]
  cases transfer.complete <;> simp [Event.sysExData, lastPiece, lastBytes]

end Pieces

/-- A message is announced in pieces of which all but the last one are full. -/
theorem conveys_events (cable : Cable) {transfer : Transfer}
    (nonempty : transfer.complete = true → transfer.bytes ≠ []) :
    Conveys (transfer.events cable) transfer where
  part := by
    rw [data_events]
    split
    · exact List.prefix_refl _
    · exact List.take_prefix _ _
  whole complete := by rw [data_events, if_pos complete]
  nonempty complete empty := by
    have data := data_events cable transfer
    rw [empty, if_pos complete] at data
    exact nonempty complete data.symm
  full index piece found := by
    rcases getElem?_events found with ⟨-, other, same, full, first, last⟩ | ⟨-, -, same⟩
    · cases same
      exact ⟨full, by simp [first], last⟩
    · cases same
  rest index piece found := by
    rcases getElem?_events found with ⟨-, other, same, -⟩ | ⟨rfl, complete, same⟩
    · cases same
    · cases same
      obtain ⟨-, short, positive⟩ := blockCount_bounds transfer.bytes.length
      -- A full piece is announced only for bytes behind it, so the last piece is not empty.
      have behind := positive (List.length_pos_iff.mpr (nonempty complete))
      unfold Assembly.capacity at short
      refine ⟨?_, ?_, by simp [lastPiece], rfl⟩
      · rw [SysExPiece.length, lastPiece, length_lastBytes]
        omega
      · rw [SysExPiece.length, lastPiece, length_lastBytes]
        omega
  kinds index event found := by
    rw [length_events]
    rcases getElem?_events found with ⟨inside, piece, rfl, -⟩ | ⟨rfl, complete, rfl⟩
    · rw [if_neg]
      · exact ⟨piece, rfl⟩
      · rintro ⟨complete, last⟩
        rw [complete, Bool.toNat_true] at last
        omega
    · rw [if_pos ⟨complete, by rw [complete, Bool.toNat_true]⟩]
      exact ⟨_, rfl⟩

/-- There are as many last pieces as there are messages that are complete. -/
theorem countP_events (cable : Cable) (transfers : List Transfer) :
    (transfers.flatMap (·.events cable)).countP (·.endsSysEx) =
      transfers.countP (·.complete) := by
  have unfinished (bytes : List UInt8) :
      ((blocks cable bytes).map Event.sysExChunk).countP (·.endsSysEx) = 0 := by
    rw [List.countP_eq_zero]
    intro event member
    obtain ⟨piece, -, rfl⟩ := List.mem_map.mp member
    exact Bool.false_ne_true
  induction transfers with
  | nil => rfl
  | cons transfer later ih =>
    rw [List.flatMap_cons, List.countP_append, ih, Transfer.events, List.countP_append, unfinished,
      List.countP_cons]
    cases transfer.complete <;> simp [Event.endsSysEx, Nat.add_comm]

/-! ## Events of a cable -/

/-- The events that announce pieces of a cable's system exclusive messages. -/
def sysExOn (cable : Cable) (events : List Event) : List Event :=
  events.filter fun event => (event.message.pieceOn? cable).isSome

section SysExOn

variable {cable : Cable} {events later : List Event} {piece : SysExPiece}

/-- Without pieces of the cable there are no events to be kept. -/
theorem sysExOn_eq_nil
    (none : ∀ event ∈ events, ∀ piece, event.message = .sysEx piece → piece.cable ≠ cable) :
    sysExOn cable events = [] := by
  rw [sysExOn, List.filter_eq_nil_iff]
  intro event member found
  obtain ⟨piece, same⟩ := Option.isSome_iff_exists.mp found
  obtain ⟨sysEx, own⟩ := Message.pieceOn?_eq_some_iff.mp same
  exact none event member piece sysEx own

theorem sysExOn_chunk (own : piece.cable = cable) (later : List Event) :
    sysExOn cable (.sysExChunk piece :: later) = .sysExChunk piece :: sysExOn cable later :=
  List.filter_cons_of_pos (by simp [Message.pieceOn?, own])

theorem sysExOn_message (own : piece.cable = cable) (later : List Event) :
    sysExOn cable (.sysExMessage piece :: later) = .sysExMessage piece :: sysExOn cable later :=
  List.filter_cons_of_pos (by simp [Message.pieceOn?, own])

end SysExOn

/-! ## Packets -/

/-- What a packet holds of a system exclusive message. -/
structure Share where
  bytes : List UInt8
  /-- They are the last bytes of their message. -/
  ends : Bool

namespace EventPacket

/-- The share of a packet in a system exclusive message, if it has one. -/
def share? (packet : EventPacket) : Option Share :=
  match packet.code with
  | .sysExContinues => some ⟨[packet.byte1, packet.byte2, packet.byte3], false⟩
  | .sysExEnds1 => if packet.byte1 = sysExEnd then some ⟨[packet.byte1], true⟩ else none
  | .sysExEnds2 => some ⟨[packet.byte1, packet.byte2], true⟩
  | .sysExEnds3 => some ⟨[packet.byte1, packet.byte2, packet.byte3], true⟩
  | _ => none

/-- The share of a packet in a message of this cable. -/
def shareOn? (cable : Cable) (packet : EventPacket) : Option Share :=
  if packet.cable = cable then packet.share? else none

end EventPacket

section Shares

variable {packet : EventPacket} {share : Share} {cable : Cable}

namespace EventPacket

/-- Only the last packet of a message may hold less than three bytes. -/
theorem carries_share (shares : packet.share? = some share) :
    packet.Carries packet.cable share.bytes share.ends ∧
      (share.ends = false → share.bytes.length = 3) := by
  unfold share? at shares
  split at shares
  case h_1 code =>
    cases shares
    refine ⟨carries_of_content (by simp [code]) (by simp) (by simp) rfl fun decoder => ?_,
      fun _ => rfl⟩
    simp [Decoder.feed, code]
  case h_2 code =>
    simp only [Option.ite_none_right_eq_some, Option.some.injEq] at shares
    obtain ⟨ended, rfl⟩ := shares
    refine ⟨carries_of_content (by simp [code]) (by simp) (by simp) rfl fun decoder => ?_, by simp⟩
    simp [Decoder.feed, code, ended]
  case h_3 code | h_4 code =>
    cases shares
    refine ⟨carries_of_content (by simp [code]) (by simp) (by simp) rfl fun decoder => ?_, by simp⟩
    simp [Decoder.feed, code]
  case h_5 => cases shares

/-- A packet carries its share, and leaves its message open only with three bytes. -/
theorem carries_shareOn (shared : packet.shareOn? cable = some share) :
    packet.Carries cable share.bytes share.ends ∧
      (share.ends = false → share.bytes.length = 3) := by
  rw [shareOn?, Option.ite_none_right_eq_some] at shared
  obtain ⟨rfl, shares⟩ := shared
  exact carries_share shares

end EventPacket

end Shares

/-! ## Messages of a cable -/

/-- The messages of a cable, as its packets tell them apart. -/
structure Transfers where
  /-- The messages that are complete or have been given up. -/
  closed : List Transfer
  /-- The bytes of the message that is open. -/
  open? : Option (List UInt8)
  deriving DecidableEq, Repr

namespace Transfers

/-- All messages, with the one that is open. -/
def all (known : Transfers) : List Transfer :=
  known.closed ++ known.open?.toList.map (⟨·, false⟩)

/-- Behind other messages, the message with these bytes goes on. -/
def goOn (earlier : List Transfer) (bytes : List UInt8) (share : Share) : Transfers :=
  if share.ends then ⟨earlier ++ [⟨bytes ++ share.bytes, true⟩], none⟩
  else ⟨earlier, some (bytes ++ share.bytes)⟩

/-- The messages of a cable, with what a further packet adds to them. A start byte gives up the
message that is open. -/
def read (cable : Cable) (known : Transfers) (packet : EventPacket) : Transfers :=
  match packet.shareOn? cable with
  | none => known
  | some share =>
    if packet.byte1 = sysExStart then goOn known.all [] share
    else match known.open? with
      | none => known
      | some bytes => goOn known.closed bytes share

/-- The packet completes a message, which it starts or finds open. -/
def completes (cable : Cable) (known : Transfers) (packet : EventPacket) : Bool :=
  (packet.shareOn? cable).any (·.ends) && (packet.byte1 == sysExStart || known.open?.isSome)

/-- Every message begins with a start byte. -/
def Started (known : Transfers) : Prop :=
  ∀ transfer ∈ known.all, transfer.bytes.head? = some sysExStart

variable {known : Transfers} {cable : Cable} {bytes : List UInt8}

/-- The open message comes behind those that are closed. -/
theorem all_of_open (going : known.open? = some bytes) :
    known.all = known.closed ++ [⟨bytes, false⟩] := by
  rw [all, going]
  rfl

/-- A share goes to the message that is open, whether it ends it or not. -/
theorem all_goOn (earlier : List Transfer) (bytes : List UInt8) (share : Share) :
    (goOn earlier bytes share).all = earlier ++ [⟨bytes ++ share.bytes, share.ends⟩] := by
  unfold goOn all
  cases share.ends <;> simp

/-- A message that goes on has been started. -/
theorem Started.goOn {earlier : List Transfer} {share : Share}
    (started : ∀ transfer ∈ earlier, transfer.bytes.head? = some sysExStart)
    (head : (bytes ++ share.bytes).head? = some sysExStart) :
    (Transfers.goOn earlier bytes share).Started := by
  rw [Started, all_goOn]
  exact List.forall_mem_append.mpr ⟨started, List.forall_mem_singleton.mpr head⟩

/-- Whatever a packet holds, all messages have been started. -/
theorem Started.read (started : known.Started) (cable : Cable) (packet : EventPacket) :
    (known.read cable packet).Started := by
  unfold Transfers.read
  split
  · exact started
  · rename_i share shared
    have head := (EventPacket.carries_shareOn shared).1.head
    split
    · rename_i starts
      exact Started.goOn started (by rw [List.nil_append, head, starts])
    · split
      · exact started
      · rename_i bytes going
        rw [Started, all_of_open going, List.forall_mem_append, List.forall_mem_singleton]
          at started
        refine Started.goOn started.1 ?_
        rw [List.head?_append, started.2]
        rfl

/-- A packet completes one message, or none. -/
theorem countP_read (cable : Cable) (known : Transfers) (packet : EventPacket) :
    (known.read cable packet).all.countP (·.complete) =
      known.all.countP (·.complete) + (known.completes cable packet).toNat := by
  unfold read completes
  split
  · simp_all
  · rename_i share shared
    split
    · rename_i starts
      cases ends : share.ends <;> simp [shared, starts, all_goOn, ends]
    · split
      · simp_all
      · rename_i bytes going
        cases ends : share.ends <;> simp [shared, going, all_goOn, all_of_open going, ends]

end Transfers

/-- The messages of a cable that packets make up. -/
def transfers (cable : Cable) (packets : List EventPacket) : Transfers :=
  packets.foldl (Transfers.read cable) ⟨[], none⟩

/-- All messages that are read have been started. -/
theorem started_transfers (cable : Cable) (packets : List EventPacket) :
    (transfers cable packets).Started := by
  have all (known : Transfers) (started : known.Started) :
      (packets.foldl (Transfers.read cable) known).Started := by
    induction packets generalizing known with
    | nil => exact started
    | cons packet later ih => exact ih _ (started.read cable packet)
  exact all ⟨[], none⟩ (by simp [Transfers.Started, Transfers.all])

end MidiTransport.Usb
