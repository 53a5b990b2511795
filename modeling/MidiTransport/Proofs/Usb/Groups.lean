import MidiTransport.Proofs.Message.Interleaving
import MidiTransport.Proofs.Usb.Feeding
import MidiTransport.Usb.Encoder

/-!
# Groups of a system exclusive message

The groups that an encoder cuts a piece into add their bytes to what the decoder has received
of the message, and a last group ends it (`Decoder.adds_groups`, `Decoder.adds_lastGroups`).
The decoder announces what it has received in pieces of its own: `Assembly.Collects` says that
the pieces that have been announced, and the bytes that have not, are the received bytes.
-/

namespace MidiTransport

/-! ## Bytes received by a cable -/

namespace SysEx.Assembly

/-- A message is open, and the bytes that were announced of it and those that were not are the
received ones. -/
structure Collects (assembly : Assembly) (heard received : List UInt8) : Prop where
  receiving : assembly.receiving = true
  collected :
    (if assembly.nextPiece.first then [] else heard) ++ assembly.nextPiece.data = received

variable {assembly : Assembly} {heard received : List UInt8}

/-- Before a piece is handed out, the next bytes go into it. -/
theorem nextPiece_of_fresh (fresh : assembly.handedOut = false) :
    assembly.nextPiece = assembly := by
  simp [nextPiece, fresh]

/-- A message that starts has received nothing, whatever has been announced of another one. -/
theorem collects_start (assembly : Assembly) (heard : List UInt8) :
    assembly.start.Collects heard [] := ⟨rfl, rfl⟩

/-- Bytes that are appended have been received. -/
theorem Collects.append (collects : assembly.Collects heard received) (bytes : List UInt8) :
    (assembly.append bytes).Collects heard (received ++ bytes) := by
  constructor
  · rw [receiving_append]
    exact collects.receiving
  · rw [nextPiece_of_fresh (handedOut_append assembly bytes), Assembly.append,
      ← collects.collected, List.append_assoc]

/-- Bytes that are announced have been heard. -/
theorem Collects.handOut (collects : assembly.Collects heard received) :
    assembly.handOut.Collects received received := by
  constructor
  · exact collects.receiving
  · simp [nextPiece, Assembly.handOut]

/-- The piece of an open message, behind those that were heard, holds all that was received. -/
theorem Collects.behind_piece {heard : Cable → List UInt8} {cable : Cable}
    (collects : assembly.Collects (heard cable) received) (fresh : assembly.handedOut = false) :
    (assembly.piece cable).behind heard = received := by
  have collected := collects.collected
  rwa [nextPiece_of_fresh fresh] at collected

/-- The last piece completes what has been received. -/
theorem Collects.behind_finish {heard : Cable → List UInt8} {cable : Cable}
    (collects : assembly.Collects (heard cable) received) (fresh : assembly.handedOut = false) :
    (assembly.finish.piece cable).behind heard = received := by
  have behind := collects.behind_piece fresh
  rwa [← nextPiece_of_fresh fresh] at behind

end SysEx.Assembly

namespace Usb

namespace Encoder

/-- Full groups may be sent as soon as it is known that more bytes follow. -/
theorem lastGroups_append {back : List UInt8} (cable : Cable) (front : List UInt8)
    (more : back ≠ []) :
    lastGroups cable (front ++ back) =
      (groups cable front).1 ++ lastGroups cable ((groups cable front).2 ++ back) := by
  fun_induction groups cable front with
  | case1 byte1 byte2 byte3 rest packets left equation ih =>
    rw [equation] at ih
    have further : rest ++ back ≠ [] := List.append_ne_nil_of_right_ne_nil rest more
    rw [List.cons_append, List.cons_append, List.cons_append, lastGroups, ih]
    · rfl
    · exact further
  | case2 left short => rfl

end Encoder

/-! ## Packets of a group -/

namespace EventPacket

/-- The upper half of a packet's first byte is its cable. -/
theorem ofNibble_headerFor (cable : Cable) (code : CodeIndex) :
    Cable.ofNibble (headerFor cable code >>> 4) = cable := by
  obtain ⟨index⟩ := cable
  cases code <;> (revert index; decide)

/-- The lower half of a packet's first byte is its code. -/
theorem ofValue?_headerFor (cable : Cable) (code : CodeIndex) :
    CodeIndex.ofValue? (headerFor cable code &&& 0x0F) = some code := by
  obtain ⟨index⟩ := cable
  cases code <;> (revert index; decide)

@[simp] theorem cable_ofBytes (cable : Cable) (code : CodeIndex) (bytes : List UInt8) :
    (ofBytes cable code bytes).cable = cable :=
  ofNibble_headerFor cable code

@[simp] theorem code_ofBytes (cable : Cable) (code : CodeIndex) (bytes : List UInt8) :
    (ofBytes cable code bytes).code = code := by
  have own := ofValue?_headerFor cable code
  simp [EventPacket.code, ofBytes, own]

@[simp] theorem byte1_ofBytes (cable : Cable) (code : CodeIndex) (bytes : List UInt8) :
    (ofBytes cable code bytes).byte1 = bytes.getD 0 0 :=
  rfl

@[simp] theorem byte2_ofBytes (cable : Cable) (code : CodeIndex) (bytes : List UInt8) :
    (ofBytes cable code bytes).byte2 = bytes.getD 1 0 :=
  rfl

@[simp] theorem byte3_ofBytes (cable : Cable) (code : CodeIndex) (bytes : List UInt8) :
    (ofBytes cable code bytes).byte3 = bytes.getD 2 0 :=
  rfl

/-- A packet of zeros has a code that no encoder writes. -/
theorem ne_zero_of_code {packet : EventPacket} (written : packet.code ≠ .miscFunctionCodes) :
    packet ≠ .zero := by
  rintro rfl
  exact written rfl

/-- The packet holds these bytes of a cable's system exclusive message, up to its end or not. -/
structure Carries (packet : EventPacket) (cable : Cable) (bytes : List UInt8) (ends : Bool) :
    Prop where
  nonzero : packet ≠ .zero
  cable_eq : packet.cable = cable
  head : bytes.head? = some packet.byte1
  short : bytes.length ≤ 3
  content : packet.bytes.take bytes.length = bytes
  feed (decoder : Decoder) : decoder.feed packet = decoder.takeSysEx packet bytes.length ends

/-- A packet that is read as bytes of a message, and has them, carries them. -/
theorem carries_of_content {packet : EventPacket} {bytes : List UInt8} {ends : Bool}
    (written : packet.code ≠ .miscFunctionCodes) (nonempty : bytes ≠ []) (short : bytes.length ≤ 3)
    (content : packet.bytes.take bytes.length = bytes)
    (feed : ∀ decoder : Decoder,
      decoder.feed packet = decoder.takeSysEx packet bytes.length ends) :
    packet.Carries packet.cable bytes ends where
  nonzero := ne_zero_of_code written
  cable_eq := rfl
  head := by
    rw [← content, List.head?_take, if_neg (by simpa using nonempty)]
    rfl
  short := short
  content := content
  feed := feed

/-- A packet carries the bytes that it has been made of. -/
theorem carries_ofBytes {cable : Cable} {code : CodeIndex} {bytes : List UInt8} {ends : Bool}
    (written : code ≠ .miscFunctionCodes) (nonempty : bytes ≠ []) (short : bytes.length ≤ 3)
    (feed : ∀ decoder : Decoder, decoder.feed (ofBytes cable code bytes) =
      decoder.takeSysEx (ofBytes cable code bytes) bytes.length ends) :
    (ofBytes cable code bytes).Carries cable bytes ends := by
  have content : (ofBytes cable code bytes).bytes.take bytes.length = bytes := by
    match bytes with
    | [] => rfl
    | [_] => rfl
    | [_, _] => rfl
    | [_, _, _] => rfl
    | _ :: _ :: _ :: _ :: _ =>
      simp only [List.length_cons] at short
      omega
  have carries := carries_of_content (by simpa using written) nonempty short content feed
  rwa [cable_ofBytes] at carries

/-- A full group that leaves its message open. -/
theorem carries_continues (cable : Cable) (byte1 byte2 byte3 : UInt8) :
    (ofBytes cable .sysExContinues [byte1, byte2, byte3]).Carries cable [byte1, byte2, byte3]
      false :=
  carries_ofBytes (by decide) (by simp) (by simp) fun decoder => by simp [Decoder.feed]

/-- A last group of one byte has the code of a system common message, from which its byte sets it
apart. -/
theorem carries_ends1 (cable : Cable) :
    (ofBytes cable .sysExEnds1 [sysExEnd]).Carries cable [sysExEnd] true :=
  carries_ofBytes (by decide) (by simp) (by simp) fun decoder => by simp [Decoder.feed]

theorem carries_ends2 (cable : Cable) (byte1 byte2 : UInt8) :
    (ofBytes cable .sysExEnds2 [byte1, byte2]).Carries cable [byte1, byte2] true :=
  carries_ofBytes (by decide) (by simp) (by simp) fun decoder => by simp [Decoder.feed]

theorem carries_ends3 (cable : Cable) (byte1 byte2 byte3 : UInt8) :
    (ofBytes cable .sysExEnds3 [byte1, byte2, byte3]).Carries cable [byte1, byte2, byte3] true :=
  carries_ofBytes (by decide) (by simp) (by simp) fun decoder => by simp [Decoder.feed]

end EventPacket

/-! ## Reading groups -/

/-- Only the first byte is a start byte. -/
def StartsOnce (bytes : List UInt8) : Prop :=
  ∀ front byte back, bytes = front ++ byte :: back → (byte = sysExStart ↔ front = [])

namespace Decoder

open SysEx (Assembly)

variable {decoder : Decoder} {packet : EventPacket} {packets : List EventPacket} {cable : Cable}
  {heard : Cable → List UInt8} {received bytes : List UInt8} {ends : Bool}

/-- The decoder has received these bytes of a cable's message, of which it may have announced
some. It may still be at an older message while there are none. -/
def Receives (decoder : Decoder) (cable : Cable) (heard : Cable → List UInt8)
    (received : List UInt8) : Prop :=
  received ≠ [] → (decoder.assembly cable).Collects (heard cable) received

/-- Reading these packets adds bytes to what has been received of a cable's message, and
completes the message if it ends. Other cables take no notice. -/
structure Adds (decoder : Decoder) (packets : List EventPacket) (cable : Cable)
    (heard : Cable → List UInt8) (received added : List UInt8) (ends : Bool) : Prop where
  found : (gathered heard (decoder.messages packets)).1 =
    if ends then [.sysEx ⟨received ++ added, cable, true, true⟩] else []
  heardElsewhere (other : Cable) (elsewhere : other ≠ cable) :
    (gathered heard (decoder.messages packets)).2 other = heard other
  assemblyElsewhere (other : Cable) (elsewhere : other ≠ cable) :
    (decoder.drain packets).2.assembly other = decoder.assembly other
  receives (further : ends = false) :
    (decoder.drain packets).2.Receives cable (gathered heard (decoder.messages packets)).2
      (received ++ added)

theorem adds_nil (clear : decoder.held = none) (receives : decoder.Receives cable heard received) :
    decoder.Adds [] cable heard received [] false := by
  constructor <;> simp [messages, drain_nil clear, gathered, receives]

/-- What packets add in two parts is added one part after the other. -/
theorem Adds.trans {back : List EventPacket} {added more : List UInt8}
    (early : decoder.Adds packets cable heard received added false)
    (late : (decoder.drain packets).2.Adds back cable (gathered heard (decoder.messages packets)).2
      (received ++ added) more ends) :
    decoder.Adds (packets ++ back) cable heard received (added ++ more) ends := by
  have both := decoder.drain_append packets back
  have heardBoth := decoder.messages_append packets back
  constructor
  · rw [heardBoth, gathered_append, early.found, late.found, List.append_assoc]
    simp
  · intro other elsewhere
    rw [heardBoth, gathered_append, late.heardElsewhere other elsewhere,
      early.heardElsewhere other elsewhere]
  · intro other elsewhere
    rw [both, late.assemblyElsewhere other elsewhere, early.assemblyElsewhere other elsewhere]
  · intro further
    rw [both, heardBoth, gathered_append, ← List.append_assoc]
    exact late.receives further

/-- The bytes of a packet go to the message that they belong to. -/
theorem collects_opened (carries : packet.Carries cable bytes ends)
    (receives : decoder.Receives cable heard received)
    (start : packet.byte1 = sysExStart ↔ received = []) :
    (decoder.opened packet).Collects (heard cable) received := by
  rw [opened, carries.cable_eq]
  by_cases starts : packet.byte1 = sysExStart
  · obtain rfl := start.mp starts
    simp only [if_pos starts]
    exact SysEx.Assembly.collects_start _ _
  · simp only [if_neg starts]
    exact receives fun nothing => starts (start.mpr nothing)

/-- A packet that goes on with a message finds what its cable has assembled. -/
theorem opened_of_unstarted (unstarted : packet.byte1 ≠ sysExStart) :
    decoder.opened packet = decoder.assembly packet.cable := by
  rw [opened, if_neg unstarted]

/-- Bytes of a message that has not been opened are passed over. -/
theorem feed_of_closed (carries : packet.Carries cable bytes ends)
    (closed : (decoder.opened packet).receiving = false) :
    decoder.feed packet = (decoder, none) := by
  simp [carries.feed, takeSysEx, closed]

/-- Bytes that find room are appended, and announced if they end the message. -/
theorem feed_of_room (carries : packet.Carries cable bytes ends)
    (receiving : (decoder.opened packet).receiving = true)
    (room : (decoder.opened packet).hasRoom bytes.length = true) :
    decoder.feed packet =
      if ends then
        (decoder.setAssembly cable ((decoder.opened packet).append bytes).finish).announceEnd cable
      else (decoder.setAssembly cable ((decoder.opened packet).append bytes), none) := by
  simp [carries.feed, takeSysEx, receiving, room, carries.content, carries.cable_eq]

/-- Bytes that find no room let the piece in front of them be handed out, and are held back. -/
theorem feed_of_full (carries : packet.Carries cable bytes ends)
    (receiving : (decoder.opened packet).receiving = true)
    (full : (decoder.opened packet).hasRoom bytes.length = false) :
    decoder.feed packet =
      { decoder.setAssembly cable (decoder.opened packet).handOut with
        held := some packet }.announceChunk cable := by
  simp [carries.feed, takeSysEx, receiving, full, carries.cable_eq]

/-- Bytes that find room are kept. -/
theorem drain_of_room (clear : decoder.held = none) (carries : packet.Carries cable bytes false)
    (receiving : (decoder.opened packet).receiving = true)
    (room : (decoder.opened packet).hasRoom bytes.length = true) :
    decoder.drain [packet] =
      ([], decoder.setAssembly cable ((decoder.opened packet).append bytes)) := by
  have still : (decoder.setAssembly cable ((decoder.opened packet).append bytes)).held = none :=
    clear
  rw [drain_packet clear carries.nonzero, feed_of_room carries receiving room]
  simp only [Bool.false_eq_true, if_false, drain_nil still, Option.toList_none, List.nil_append]

/-- The last bytes of a message are announced if they find room. -/
theorem drain_of_last_room (clear : decoder.held = none)
    (carries : packet.Carries cable bytes true)
    (receiving : (decoder.opened packet).receiving = true)
    (room : (decoder.opened packet).hasRoom bytes.length = true) :
    ∃ next : Decoder,
      decoder.drain [packet] =
          ([.sysExMessage (((decoder.opened packet).append bytes).finish.piece cable)], next) ∧
        next.assembly cable = ((decoder.opened packet).append bytes).finish ∧
        ∀ other, other ≠ cable → next.assembly other = decoder.assembly other := by
  have own := assembly_setAssembly decoder cable ((decoder.opened packet).append bytes).finish
  refine ⟨{ decoder.setAssembly cable ((decoder.opened packet).append bytes).finish with
    active := cable }, ?_, own, fun other elsewhere => assembly_setAssembly_of_ne elsewhere _⟩
  have still : ({ decoder.setAssembly cable ((decoder.opened packet).append bytes).finish with
    active := cable } : Decoder).held = none := clear
  rw [drain_packet clear carries.nonzero, feed_of_room carries receiving room]
  simp only [if_true, announceEnd_eq own, drain_nil still, Option.toList_some, List.append_nil]

/-- A packet whose bytes find room adds them to the message. -/
theorem adds_of_room (clear : decoder.held = none) (carries : packet.Carries cable bytes ends)
    (collects : (decoder.opened packet).Collects (heard cable) received)
    (room : (decoder.opened packet).hasRoom bytes.length = true) :
    decoder.Adds [packet] cable heard received bytes ends := by
  have filled := collects.append bytes
  cases ends with
  | false =>
    have drained := drain_of_room clear carries collects.receiving room
    have silent : decoder.messages [packet] = [] := by rw [messages, drained, List.map_nil]
    constructor
    · rw [silent]
      rfl
    · intro other elsewhere
      rw [silent]
      rfl
    · intro other elsewhere
      rw [drained]
      exact assembly_setAssembly_of_ne elsewhere _
    · intro _ _
      rw [drained, silent]
      simpa [gathered] using filled
  | true =>
    obtain ⟨next, drained, -, away⟩ := drain_of_last_room clear carries collects.receiving room
    have announced : gathered heard (decoder.messages [packet]) =
          ([.sysEx ⟨received ++ bytes, cable, true, true⟩], Function.update heard cable []) := by
      rw [messages, drained, List.map_singleton, gathered_singleton, Event.message_sysExMessage,
        gather_of_last rfl, filled.behind_finish (SysEx.Assembly.handedOut_append _ _)]
      rfl
    constructor
    · rw [announced]
      rfl
    · intro other elsewhere
      rw [announced]
      exact Function.update_of_ne elsewhere _ _
    · intro other elsewhere
      rw [drained, away other elsewhere]
    · rintro ⟨⟩

/-- A message that starts has room for any packet, so a packet without room goes on with one that
has not been handed out. -/
theorem opened_of_full (carries : packet.Carries cable bytes ends)
    (full : (decoder.opened packet).hasRoom bytes.length = false) :
    packet.byte1 ≠ sysExStart ∧ (decoder.opened packet).handedOut = false := by
  have fresh : (decoder.opened packet).handedOut = false :=
    Assembly.handedOut_eq_false_of_hasRoom (Nat.le_trans carries.short (by decide)) full
  have goesOn : packet.byte1 ≠ sysExStart := by
    intro starts
    rw [opened, if_pos starts, hasRoom_start _ carries.short] at full
    cases full
  exact ⟨goesOn, fresh⟩

/-- Without room the decoder announces what it has received, and then reads the packet again. -/
theorem drain_of_full (clear : decoder.held = none) (carries : packet.Carries cable bytes ends)
    (receiving : (decoder.opened packet).receiving = true)
    (full : (decoder.opened packet).hasRoom bytes.length = false) :
    ∃ next : Decoder,
      decoder.drain [packet] = (.sysExChunk ((decoder.opened packet).handOut.piece cable) ::
          (next.drain [packet]).1, (next.drain [packet]).2) ∧
        next.held = none ∧ next.assembly cable = (decoder.opened packet).handOut ∧
        ∀ other, other ≠ cable → next.assembly other = decoder.assembly other := by
  have own := assembly_setAssembly decoder cable (decoder.opened packet).handOut
  refine ⟨{ decoder.setAssembly cable (decoder.opened packet).handOut with active := cable }, ?_,
    clear, own, fun other elsewhere => assembly_setAssembly_of_ne elsewhere _⟩
  apply drain_of_refused clear carries.nonzero
  · exact clear
  · rw [feed_of_full carries receiving full]
    exact announceChunk_eq own

/-- A packet whose bytes find no room adds them too, behind what the decoder announces. -/
theorem adds_of_full (clear : decoder.held = none) (carries : packet.Carries cable bytes ends)
    (collects : (decoder.opened packet).Collects (heard cable) received)
    (full : (decoder.opened packet).hasRoom bytes.length = false) :
    decoder.Adds [packet] cable heard received bytes ends := by
  obtain ⟨goesOn, fresh⟩ := opened_of_full carries full
  obtain ⟨next, drained, still, own, elsewhere⟩ :=
    drain_of_full clear carries collects.receiving full
  have whole : ((decoder.opened packet).handOut.piece cable).behind heard = received :=
    collects.behind_piece fresh
  have announced : gathered heard (decoder.messages [packet]) =
      gathered (Function.update heard cable received) (next.messages [packet]) := by
    have unfinished : ((decoder.opened packet).handOut.piece cable).last = false := by
      simp [Assembly.piece, Assembly.handOut, collects.receiving]
    rw [messages, drained, List.map_cons, gathered, Event.message_sysExChunk,
      gather_of_open unfinished, whole]
    rfl
  have opened_next : next.opened packet = (decoder.opened packet).handOut := by
    rw [opened_of_unstarted goesOn, carries.cable_eq, own]
  -- What has been announced counts as heard now, and the packet is read again with room for it.
  have later : next.Adds [packet] cable (Function.update heard cable received) received bytes
      ends := by
    apply adds_of_room still carries
    · rw [opened_next, Function.update_self]
      exact collects.handOut
    · rw [opened_next]
      simpa [Assembly.hasRoom, Assembly.used, Assembly.handOut] using
        Nat.le_trans carries.short (by decide)
  constructor
  · rw [announced]
    exact later.found
  · intro other away
    rw [announced, later.heardElsewhere other away]
    exact Function.update_of_ne away _ _
  · intro other away
    rw [drained, later.assemblyElsewhere other away, elsewhere other away]
  · intro further
    rw [drained, announced]
    exact later.receives further

/-- Every packet of a group adds its bytes to the message that they belong to. -/
theorem adds_packet (clear : decoder.held = none) (carries : packet.Carries cable bytes ends)
    (receives : decoder.Receives cable heard received)
    (start : packet.byte1 = sysExStart ↔ received = []) :
    decoder.Adds [packet] cable heard received bytes ends := by
  have collects := collects_opened carries receives start
  cases room : (decoder.opened packet).hasRoom bytes.length with
  | true => exact adds_of_room clear carries collects room
  | false => exact adds_of_full clear carries collects room

/-! ## Whole groups -/

/-- The groups of an unfinished message add all bytes but those left over. -/
theorem adds_groups (clear : decoder.held = none) (receives : decoder.Receives cable heard received)
    (once : StartsOnce (received ++ bytes)) :
    ∃ taken, taken ++ (Encoder.groups cable bytes).2 = bytes ∧
      decoder.Adds (Encoder.groups cable bytes).1 cable heard received taken false := by
  fun_induction Encoder.groups cable bytes generalizing decoder heard received with
  | case1 byte1 byte2 byte3 rest packets left equation ih =>
    have first := adds_packet clear (EventPacket.carries_continues cable byte1 byte2 byte3)
      receives (once received byte1 (byte2 :: byte3 :: rest) rfl)
    have further : StartsOnce (received ++ [byte1, byte2, byte3] ++ rest) := by
      simpa using once
    obtain ⟨taken, all, later⟩ := ih (held_drain _ _) (first.receives rfl) further
    rw [equation] at all later
    exact ⟨[byte1, byte2, byte3] ++ taken, by simpa using all, first.trans later⟩
  | case2 left short => exact ⟨[], rfl, adds_nil clear receives⟩

/-- The last groups of a message add all its bytes and end it, unless the last one has a single
byte that is not the end byte. -/
theorem adds_lastGroups (clear : decoder.held = none)
    (receives : decoder.Receives cable heard received) (once : StartsOnce (received ++ bytes))
    (nonempty : bytes ≠ [])
    (ending : bytes.length % 3 = 1 → bytes.getLast? = some sysExEnd) :
    decoder.Adds (Encoder.lastGroups cable bytes) cable heard received bytes true := by
  fun_induction Encoder.lastGroups cable bytes generalizing decoder heard received with
  | case1 => exact absurd rfl nonempty
  | case2 byte1 =>
    obtain rfl : byte1 = sysExEnd := by simpa using ending
    exact adds_packet clear (EventPacket.carries_ends1 cable) receives (once received _ _ rfl)
  | case3 byte1 byte2 =>
    exact adds_packet clear (EventPacket.carries_ends2 cable byte1 byte2) receives
      (once received _ _ rfl)
  | case4 byte1 byte2 byte3 =>
    exact adds_packet clear (EventPacket.carries_ends3 cable byte1 byte2 byte3) receives
      (once received _ _ rfl)
  | case5 byte1 byte2 byte3 rest more ih =>
    have first := adds_packet clear (EventPacket.carries_continues cable byte1 byte2 byte3)
      receives (once received byte1 (byte2 :: byte3 :: rest) rfl)
    have further : StartsOnce (received ++ [byte1, byte2, byte3] ++ rest) := by
      simpa using once
    have last : rest.length % 3 = 1 → rest.getLast? = some sysExEnd := by
      intro lone
      have whole := ending (by simp only [List.length_cons]; omega)
      cases rest with
      | nil => exact absurd rfl more
      | cons => simpa using whole
    exact first.trans (ih (held_drain _ _) (first.receives rfl) further more last)

end Decoder

end Usb

end MidiTransport
