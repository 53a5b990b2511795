import MidiTransport.Proofs.Usb.Conversation

/-!
# System exclusive messages that are cut short

A system exclusive message that another status byte has cut short is over without an end byte.
The packet with its last bytes still ends it, unless that packet holds a single byte. Its code
then is the one of system common messages of a single byte, and a decoder takes every byte but
the end byte for such a message (`Message.overUsb`). All other messages arrive
(`gathered_drain_encodeAll_of_successive`).
-/

namespace MidiTransport

/-! ## Messages with any end -/

/-- The message may come next, as in `Message.ContinuesIn`, but the bytes of a system exclusive
message may end with any byte. -/
def Message.FollowsIn (unfinished : Cable → Bool) (held : Cable → List UInt8) : Message → Prop
  | sysEx piece =>
    (piece.first = true ∨ unfinished piece.cable = true) ∧
      (piece.last = true → piece.data ≠ []) ∧ Usb.StartsOnce (piece.behind held)
  | message => message.ContinuesIn unfinished held

/-- Only pieces may end with any byte. -/
theorem Message.FollowsIn.continues {unfinished : Cable → Bool} {held : Cable → List UInt8}
    {message : Message} (next : message.FollowsIn unfinished held)
    (single : ∀ piece, message ≠ .sysEx piece) : message.ContinuesIn unfinished held := by
  cases message with
  | sysEx piece => exact absurd rfl (single piece)
  | _ => exact next

/-- The cables with an unfinished system exclusive message behind these messages. -/
def unfinishedBehind (unfinished : Cable → Bool) (messages : List Message) : Cable → Bool :=
  messages.foldl (fun unfinished message => message.unfinishedAfter unfinished) unfinished

/-- The messages may come one after the other, and system exclusive messages may end with any
byte. -/
def Successive (unfinished : Cable → Bool) (held : Cable → List UInt8) : List Message → Prop
  | [] => True
  | message :: later =>
    message.FollowsIn unfinished held ∧
      Successive (message.unfinishedAfter unfinished) (gather held message).2 later

/-- Messages may come in two parts, the later ones behind what the earlier ones leave unfinished. -/
theorem Successive.append {unfinished : Cable → Bool} {held : Cable → List UInt8}
    {front back : List Message} (early : Successive unfinished held front)
    (late : Successive (unfinishedBehind unfinished front) (gathered held front).2 back) :
    Successive unfinished held (front ++ back) := by
  induction front generalizing unfinished held with
  | nil => exact late
  | cons message later ih => exact ⟨early.1, ih early.2 late⟩

theorem unfinishedBehind_append (unfinished : Cable → Bool) (front back : List Message) :
    unfinishedBehind unfinished (front ++ back) =
      unfinishedBehind (unfinishedBehind unfinished front) back :=
  List.foldl_append

/-- The last packet of the piece's bytes, behind whole groups, holds a single byte that is not
the end byte. -/
def SysExPiece.EndsAlone (piece : SysExPiece) : Prop :=
  piece.data.length % 3 = 1 ∧ piece.data.getLast? ≠ some sysExEnd

instance (piece : SysExPiece) : Decidable piece.EndsAlone :=
  inferInstanceAs (Decidable (_ ∧ _))

/-- What a message is taken for on the other side. A single byte at the end of a system exclusive
message is taken for a system common message, and the rest of the message is lost. -/
def Message.overUsb : Message → Message
  | sysEx piece =>
    if piece.EndsAlone then common ⟨piece.data.getLast?.getD 0, 0, 0, piece.cable⟩
    else sysEx piece
  | message => message

/-- A message crosses over as it is unless a byte other than the end byte is alone in its last
packet. -/
theorem Message.overUsb_eq_self_iff (message : Message) :
    message.overUsb = message ↔ ∀ piece, message = .sysEx piece → ¬ piece.EndsAlone := by
  cases message with
  | sysEx piece =>
    constructor
    · intro same other equation alone
      obtain rfl := Message.sysEx.inj equation
      simp [overUsb, alone] at same
    · intro other
      simp [overUsb, other piece rfl]
  | _ => simp [overUsb]

/-- The messages all arrive exactly if no system exclusive message among them ends alone. -/
theorem map_overUsb_eq_self_iff (messages : List Message) :
    messages.map (·.overUsb) = messages ↔
      ∀ piece, .sysEx piece ∈ messages → ¬ piece.EndsAlone := by
  induction messages with
  | nil => simp
  | cons message later ih =>
    rw [List.map_cons, List.cons.injEq, Message.overUsb_eq_self_iff, ih]
    constructor
    · rintro ⟨here, rest⟩ piece member
      rcases List.mem_cons.mp member with same | further
      · exact here piece same.symm
      · exact rest piece further
    · intro all
      exact ⟨fun piece same => all piece (by simp [same]),
        fun piece member => all piece (by simp [member])⟩

namespace Usb

/-- The front part of bytes with one start byte has one. -/
theorem StartsOnce.of_append {front back : List UInt8} (once : StartsOnce (front ++ back)) :
    StartsOnce front := by
  rintro early byte late rfl
  exact once early byte (late ++ back) (by simp)

/-- A byte that does not start a message may be added to one. -/
theorem StartsOnce.concat {bytes : List UInt8} {byte : UInt8} (once : StartsOnce bytes)
    (nonempty : bytes ≠ []) (other : byte ≠ sysExStart) : StartsOnce (bytes ++ [byte]) := by
  intro front middle back split
  rcases List.eq_nil_or_concat back with rfl | ⟨early, last, rfl⟩
  · obtain ⟨rfl, same⟩ := List.append_inj' split rfl
    obtain rfl := List.singleton_inj.mp same
    simp [other, nonempty]
  · apply once front middle early
    rw [List.concat_eq_append, ← List.cons_append, ← List.append_assoc] at split
    exact (List.append_inj' split rfl).1

/-! ## A last group of one byte -/

namespace Encoder

variable {cable : Cable} {bytes front : List UInt8} {byte : UInt8}

/-- Full groups leave as many bytes over as there are beyond a multiple of three. -/
theorem length_groups_mod (cable : Cable) (bytes : List UInt8) :
    (groups cable bytes).2.length % 3 = bytes.length % 3 := by
  fun_induction groups cable bytes with
  | case1 byte1 byte2 byte3 rest packets left equation ih =>
    rw [equation] at ih
    simp only [List.length_cons] at ih ⊢
    omega
  | case2 left short => rfl

/-- Behind whole groups the last byte has a packet of its own. -/
theorem lastGroups_concat (whole : front.length % 3 = 0) :
    lastGroups cable (front ++ [byte]) =
      (groups cable front).1 ++ [.ofBytes cable .sysExEnds1 [byte]] := by
  have filled : (groups cable front).2 = [] := by
    have short := length_groups_lt cable front
    rw [← length_groups_mod cable front, Nat.mod_eq_of_lt short] at whole
    exact List.length_eq_zero_iff.mp whole
  rw [lastGroups_append cable front (List.cons_ne_nil byte []), filled]
  rfl

end Encoder

variable {encoder : Encoder} {decoder : Decoder} {unfinished : Cable → Bool}
  {held heard : Cable → List UInt8} {piece : SysExPiece}

/-- A single byte has the code of a system common message, and is taken for one. -/
theorem Decoder.announces_alone {byte : UInt8} (clear : decoder.held = none)
    (other : byte ≠ sysExEnd) (cable : Cable) :
    decoder.Announces [.ofBytes cable .sysExEnds1 [byte]] (.common ⟨byte, 0, 0, cable⟩) := by
  have fed : decoder.feed (.ofBytes cable .sysExEnds1 [byte]) =
      decoder.announceCommon ⟨byte, 0, 0, cable⟩ := by
    simp [feed, other]
  exact announces_packet clear (EventPacket.ne_zero_of_code (by simp)) fed clear rfl

/-! ## The conversation -/

/-- The bytes that wait in the encoder are those of unfinished messages behind whole groups. -/
def Encoder.Aligned (encoder : Encoder) (unfinished : Cable → Bool) (held : Cable → List UInt8) :
    Prop :=
  ∀ cable, unfinished cable = true →
    (encoder.waiting cable).length % 3 = (held cable).length % 3

theorem Encoder.aligned_initial : Encoder.initial.Aligned (fun _ => false) fun _ => [] := by
  rintro cable ⟨⟩

/-- The last group of a message is as long for a piece behind what waits as for all bytes. -/
theorem Encoder.Aligned.length_due (aligned : encoder.Aligned unfinished held)
    (fits : piece.first = true ∨ unfinished piece.cable = true) :
    (encoder.due piece).length % 3 = (piece.behind held).length % 3 := by
  cases first : piece.first with
  | true => simp [due, SysExPiece.behind, first]
  | false =>
    have same := aligned piece.cable (by simpa [first] using fits)
    simp only [due, SysExPiece.behind, first, Bool.false_eq_true, if_false, List.length_append]
    omega

/-- Every message leaves as many bytes to wait as there are beyond full groups. -/
theorem Encoder.Aligned.encode {message : Message} (aligned : encoder.Aligned unfinished held)
    (follows : message.FollowsIn unfinished held) :
    (encoder.encode message).2.Aligned (message.unfinishedAfter unfinished)
      (gather held message).2 := by
  cases message with
  | sysEx piece =>
    obtain ⟨fits, -⟩ := follows
    intro cable open_
    by_cases own : cable = piece.cable
    · subst own
      have goesOn : piece.last = false := by simpa [Message.unfinishedAfter] using open_
      have after : (gather held (.sysEx piece)).2 piece.cable = piece.behind held := by
        rw [gather_of_open goesOn]
        exact Function.update_self ..
      rw [(encoder.encode_of_open goesOn).2, after, length_groups_mod, aligned.length_due fits]
    · have before : unfinished cable = true := by
        rwa [Message.unfinishedAfter, Function.update_of_ne own] at open_
      rw [encoder.waiting_encode_of_ne own, gather_elsewhere own]
      exact aligned cable before
  | _ => exact aligned

/-- From the packets of a message the decoder reads what `Message.overUsb` says, and it follows
the encoder. -/
structure Reads (encoder : Encoder) (decoder : Decoder) (unfinished : Cable → Bool)
    (held heard : Cable → List UInt8) (message : Message) : Prop where
  found : (gathered heard (decoder.messages (encoder.encode message).1)).1 =
    (gather held message).1.map (·.overUsb)
  follows : Follows (encoder.encode message).2 (decoder.drain (encoder.encode message).1).2
    (message.unfinishedAfter unfinished) (gather held message).2
    (gathered heard (decoder.messages (encoder.encode message).1)).2

/-- A message that is found as it was sent is read as it crosses over. -/
theorem Finds.reads {message : Message}
    (finds : Finds encoder decoder unfinished held heard message)
    (arrives : ∀ piece, .sysEx piece ∈ (gather held message).1 → ¬ piece.EndsAlone) :
    Reads encoder decoder unfinished held heard message := by
  constructor
  · rw [finds.found, (map_overUsb_eq_self_iff _).mpr arrives]
  · exact finds.follows

/-- A message whose last packet holds a single byte is not finished. The decoder forgets it when
the next message of its cable starts. -/
theorem Follows.reads_alone {byte : UInt8} {front : List UInt8}
    (follows : Follows encoder decoder unfinished held heard)
    (fits : piece.first = true ∨ unfinished piece.cable = true)
    (once : StartsOnce (piece.behind held)) (last : piece.last = true)
    (split : encoder.due piece = front ++ [byte]) (whole : front.length % 3 = 0)
    (other : byte ≠ sysExEnd) :
    (gathered heard (decoder.messages (encoder.encode (.sysEx piece)).1)).1 =
        [.common ⟨byte, 0, 0, piece.cable⟩] ∧
      Follows (encoder.encode (.sysEx piece)).2
        (decoder.drain (encoder.encode (.sysEx piece)).1).2
        ((Message.sysEx piece).unfinishedAfter unfinished) (gather held (.sysEx piece)).2
        (gathered heard (decoder.messages (encoder.encode (.sysEx piece)).1)).2 := by
  obtain ⟨received, receives, sent⟩ := follows.exists_received fits
  have groupsOnce : StartsOnce (received ++ front) := by
    rw [sent, split, ← List.append_assoc] at once
    exact once.of_append
  obtain ⟨taken, -, adds⟩ := Decoder.adds_groups follows.clear receives groupsOnce
  -- A last group of one byte has the code of a common message, and is read as one.
  have announces := Decoder.announces_alone
    (decoder.held_drain (Encoder.groups piece.cable front).1) other piece.cable
  have packets : (encoder.encode (.sysEx piece)).1 =
      (Encoder.groups piece.cable front).1 ++ [.ofBytes piece.cable .sysExEnds1 [byte]] := by
    rw [encoder.encode_of_last last, split, Encoder.lastGroups_concat whole]
  have gathers : gathered heard (decoder.messages (encoder.encode (.sysEx piece)).1) =
      ([.common ⟨byte, 0, 0, piece.cable⟩],
        (gathered heard (decoder.messages (Encoder.groups piece.cable front).1)).2) := by
    rw [packets, Decoder.messages_append, announces.found, gathered_append, adds.found]
    rfl
  rw [gathers]
  refine ⟨rfl, decoder.held_drain _, ?_⟩
  -- The message is over for the encoder, so only the other cables are left to follow.
  intro cable open_
  have elsewhere : cable ≠ piece.cable := by
    rintro rfl
    simp [Message.unfinishedAfter, last] at open_
  have before : unfinished cable = true := by
    rwa [Message.unfinishedAfter, Function.update_of_ne elsewhere] at open_
  obtain ⟨others, same, others_receives⟩ := follows.tracks cable before
  have kept : (decoder.drain (encoder.encode (.sysEx piece)).1).2.assembly cable =
      decoder.assembly cable := by
    rw [packets, Decoder.drain_append, Decoder.assembly, announces.assemblies]
    exact adds.assemblyElsewhere cable elsewhere
  refine ⟨others, ?_, fun some => ?_⟩
  · rw [gather_elsewhere elsewhere, same, encoder.waiting_encode_of_ne elsewhere]
  · rw [kept, adds.heardElsewhere cable elsewhere]
    exact others_receives some

/-- A last piece is read as it crosses over, whatever its last byte is. -/
theorem Follows.reads_last (follows : Follows encoder decoder unfinished held heard)
    (aligned : encoder.Aligned unfinished held)
    (fits : piece.first = true ∨ unfinished piece.cable = true)
    (once : StartsOnce (piece.behind held)) (last : piece.last = true)
    (nonempty : piece.data ≠ []) :
    Reads encoder decoder unfinished held heard (.sysEx piece) := by
  have length := aligned.length_due fits
  have behindEnd : (piece.behind held).getLast? = piece.data.getLast? :=
    List.getLast?_append_of_ne_nil _ nonempty
  have dueEnd : (encoder.due piece).getLast? = piece.data.getLast? :=
    List.getLast?_append_of_ne_nil _ nonempty
  -- What has left the encoder are whole groups, so the message ends alone if its last group
  -- does.
  by_cases alone : SysExPiece.EndsAlone ⟨piece.behind held, piece.cable, true, true⟩
  · obtain ⟨lone, other⟩ := alone
    obtain ⟨byte, ends⟩ : ∃ byte, piece.data.getLast? = some byte :=
      ⟨_, List.getLast?_eq_some_getLast nonempty⟩
    obtain ⟨front, split⟩ := List.getLast?_eq_some_iff.mp (dueEnd.trans ends)
    have whole : front.length % 3 = 0 := by
      have total : (encoder.due piece).length = front.length + 1 := by simp [split]
      dsimp only at lone
      omega
    have unlike : byte ≠ sysExEnd := by
      rintro rfl
      exact other (behindEnd.trans ends)
    obtain ⟨found, after⟩ := follows.reads_alone fits once last split whole unlike
    constructor
    · rw [found, gather_of_last last]
      simp [Message.overUsb, SysExPiece.EndsAlone, lone, behindEnd, ends, unlike]
    · exact after
  · have ending : (encoder.due piece).length % 3 = 1 → piece.data.getLast? = some sysExEnd := by
      intro lone
      by_contra other
      exact alone ⟨length ▸ lone, behindEnd ▸ other⟩
    apply (follows.finds_last fits once last nonempty ending).reads
    intro whole member
    rw [gather_of_last last, List.mem_singleton] at member
    obtain rfl := Message.sysEx.inj member
    exact alone

/-- Every message is read as it crosses over. -/
theorem Follows.reads {message : Message} (follows : Follows encoder decoder unfinished held heard)
    (aligned : encoder.Aligned unfinished held) (next : message.FollowsIn unfinished held) :
    Reads encoder decoder unfinished held heard message := by
  cases message with
  | sysEx piece =>
    obtain ⟨fits, nonempty, once⟩ := next
    cases last : piece.last with
    | true => exact follows.reads_last aligned fits once last (nonempty last)
    | false =>
      apply (follows.finds_open fits once last).reads
      intro whole member
      rw [gather_of_open last] at member
      cases member
  | _ =>
    apply (follows.finds (next.continues (by simp))).reads
    intro whole member
    simp [gather] at member

/-- All messages together: whatever ends system exclusive messages have, the decoder reads what
the packets are taken for, in order and on their cables. -/
theorem Follows.gathered_drain_of_successive {messages : List Message}
    (follows : Follows encoder decoder unfinished held heard)
    (aligned : encoder.Aligned unfinished held)
    (successive : Successive unfinished held messages) :
    (gathered heard (decoder.messages (encoder.encodeAll messages).1)).1 =
      (gathered held messages).1.map (·.overUsb) := by
  induction messages generalizing encoder decoder unfinished held heard with
  | nil => simp [Encoder.encodeAll, Decoder.messages, Decoder.drain_nil follows.clear, gathered]
  | cons message later ih =>
    obtain ⟨next, rest⟩ := successive
    have here := follows.reads aligned next
    have packets : (encoder.encodeAll (message :: later)).1 =
        (encoder.encode message).1 ++ ((encoder.encode message).2.encodeAll later).1 := rfl
    rw [packets, Decoder.messages_append, gathered_append, here.found,
      ih here.follows (aligned.encode next) rest, gathered, List.map_append]

/-- Whatever bytes end the system exclusive messages, all messages are read as they cross over. -/
theorem gathered_drain_encodeAll_of_successive {messages : List Message}
    (successive : Successive (fun _ => false) (fun _ => []) messages) :
    (gathered (fun _ => []) (Decoder.initial.messages (Encoder.initial.encodeAll messages).1)).1 =
      (gathered (fun _ => []) messages).1.map (·.overUsb) :=
  follows_initial.gathered_drain_of_successive Encoder.aligned_initial successive

end Usb

end MidiTransport
