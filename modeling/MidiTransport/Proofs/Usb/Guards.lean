import MidiTransport.Proofs.Usb.Coherence

/-!
# Decoding packets with buffers of fixed size

A guarded pull keeps the bytes of each cable's system exclusive message in a buffer of the cable,
and has no result as soon as one of the buffers' guards fails. A packet asks for room, and whether a
message is open, right before the bytes are added or handed out. So while the buffers hold what the
cables assemble, all guarded pulls have the results of the pulls themselves
(`Decoder.HeldBy.exists_guardedRun`), and no guard ever fails.
-/

namespace MidiTransport.Usb

open SysEx (Assembly Buffer)

/-- The buffers of all cables. -/
abbrev Buffers := Vector Buffer Cable.count

namespace Decoder

variable {decoder : Decoder} {packet : EventPacket} {cable : Cable} {assembly : Assembly}
  {buffers : Buffers} {buffer : Buffer}

/-! ## Guarded steps -/

/-- The buffer that the bytes of a packet go to. -/
def openedBuffer (buffers : Buffers) (packet : EventPacket) : Buffer :=
  let buffer := buffers.get packet.cable.index
  if packet.byte1 = sysExStart then buffer.start else buffer

/-- Act on a packet with the next `count` bytes of a system exclusive message, which
may be its last ones. -/
def guardedTakeSysEx (decoder : Decoder) (buffers : Buffers) (packet : EventPacket) (count : Nat)
    (ends : Bool) : Option ((Decoder × Option Event) × Buffers) :=
  let cable := packet.cable
  let opened := openedBuffer buffers packet
  if opened.receiving then
    if opened.hasRoom count then do
      let filled ← opened.append? (packet.bytes.take count)
      if ends then
        let assembly ← filled.finish.assembly?
        some ((decoder.setAssembly cable assembly).announceEnd cable,
          buffers.set cable.index filled.finish)
      else
        let assembly ← filled.assembly?
        some ((decoder.setAssembly cable assembly, none), buffers.set cable.index filled)
    else do
      let full ← opened.handOut?
      let assembly ← full.assembly?
      some ({ decoder.setAssembly cable assembly with held := some packet }.announceChunk cable,
        buffers.set cable.index full)
  else some ((decoder, none), buffers)

/-- Act on one packet. -/
def guardedFeed (decoder : Decoder) (buffers : Buffers) (packet : EventPacket) :
    Option ((Decoder × Option Event) × Buffers) :=
  match packet.code with
  | .sysExContinues => decoder.guardedTakeSysEx buffers packet 3 false
  | .sysExEnds1 =>
    if packet.byte1 = sysExEnd then decoder.guardedTakeSysEx buffers packet 1 true
    else some (decoder.feed packet, buffers)
  | .sysExEnds2 => decoder.guardedTakeSysEx buffers packet 2 true
  | .sysExEnds3 => decoder.guardedTakeSysEx buffers packet 3 true
  | _ => some (decoder.feed packet, buffers)

/-- Act on the packet that has been held back, if there is one. -/
def guardedResume (decoder : Decoder) (buffers : Buffers) :
    Option ((Decoder × Option Event) × Buffers) :=
  match decoder.held with
  | none => some ((decoder, none), buffers)
  | some packet => { decoder with held := none }.guardedFeed buffers packet

/-- Read packets up to the first one that completes a message or is zero. -/
def guardedScan (decoder : Decoder) (buffers : Buffers) :
    List EventPacket → Option (Pull × Buffers)
  | [] => some (⟨decoder, none, []⟩, buffers)
  | packet :: rest =>
    if packet = .zero then some (⟨decoder, none, rest⟩, buffers)
    else do
      match ← decoder.guardedFeed buffers packet with
      | ((next, some event), buffers) => some (⟨next, some event, rest⟩, buffers)
      | ((next, none), buffers) => next.guardedScan buffers rest

/-- Act on a packet that was held back and then read packets, up to the next message. -/
def guardedPull (decoder : Decoder) (buffers : Buffers) (input : List EventPacket) :
    Option (Pull × Buffers) := do
  match ← decoder.guardedResume buffers with
  | ((next, some event), buffers) => some (⟨next, some event, input⟩, buffers)
  | ((next, none), buffers) => next.guardedScan buffers input

/-- Guarded pulls, one from each of these inputs. -/
def guardedRun (decoder : Decoder) (buffers : Buffers) :
    List (List EventPacket) → Option (Decoder × Buffers)
  | [] => some (decoder, buffers)
  | input :: inputs => do
    let (pull, buffers) ← decoder.guardedPull buffers input
    pull.decoder.guardedRun buffers inputs

/-! ## Guards are met -/

/-- Each cable's buffer holds what the cable assembles. -/
def HeldBy (decoder : Decoder) (buffers : Buffers) : Prop :=
  ∀ cable : Cable, (buffers.get cable.index).Holds (decoder.assembly cable)

theorem heldBy_initial : initial.HeldBy (Vector.replicate _ .blank) := by
  intro cable
  have blank : (Vector.replicate Cable.count Buffer.blank).get cable.index = .blank :=
    Vector.getElem_replicate cable.index.isLt
  rw [assembly_initial, blank]
  exact SysEx.Buffer.holds_blank

/-- A buffer is replaced along with what its cable assembles. -/
theorem HeldBy.set (heldBy : decoder.HeldBy buffers) (cable : Cable)
    (holds : buffer.Holds assembly) :
    (decoder.setAssembly cable assembly).HeldBy
      (buffers.set cable.index buffer cable.index.isLt) := by
  intro other
  by_cases same : other = cable
  · subst same
    have own : (buffers.set other.index buffer).get other.index = buffer :=
      Vector.getElem_set_self other.index.isLt
    rw [assembly_setAssembly, own]
    exact holds
  · have kept : (buffers.set cable.index buffer).get other.index = buffers.get other.index :=
      Vector.getElem_set_ne cable.index.isLt other.index.isLt (index_ne_of_ne same)
    rw [assembly_setAssembly_of_ne same, kept]
    exact heldBy other

/-- The buffer that the bytes of a packet go to holds what they are appended to. -/
theorem HeldBy.openedBuffer (heldBy : decoder.HeldBy buffers) (packet : EventPacket) :
    (openedBuffer buffers packet).Holds (decoder.opened packet) := by
  unfold Decoder.openedBuffer opened
  dsimp only
  split
  · exact SysEx.Buffer.holds_start _ _
  · exact heldBy packet.cable

/-- A guarded step has the outcome of the step itself, and the buffers hold what the cables then
assemble. -/
def Agrees (guarded : Option ((Decoder × Option Event) × Buffers))
    (outcome : Decoder × Option Event) : Prop :=
  ∃ buffers, guarded = some (outcome, buffers) ∧ outcome.1.HeldBy buffers

namespace HeldBy

/-- Bytes that a packet has pass all checks. -/
theorem agrees_takeSysEx (heldBy : decoder.HeldBy buffers) {count : Nat} (ends : Bool)
    (within : (packet.bytes.take count).length = count) :
    Agrees (decoder.guardedTakeSysEx buffers packet count ends)
      (decoder.takeSysEx packet count ends) := by
  have opened := heldBy.openedBuffer packet
  unfold guardedTakeSysEx takeSysEx
  dsimp only
  rw [opened.receiving, opened.hasRoom_eq]
  split
  · rename_i receiving
    split
    · rename_i room
      obtain ⟨filled, appended, kept⟩ :=
        opened.exists_append? (packet.bytes.take count) (within.symm ▸ room)
      split
      · refine ⟨_, ?_, heldBy.set packet.cable kept.finish⟩
        simp [appended, kept.finish.assembly?_eq]
      · refine ⟨_, ?_, heldBy.set packet.cable kept⟩
        simp [appended, kept.assembly?_eq]
    · obtain ⟨full, handed, kept⟩ := opened.exists_handOut? receiving
      refine ⟨_, ?_, heldBy.set packet.cable kept⟩
      simp [handed, kept.assembly?_eq]
  · exact ⟨buffers, rfl, heldBy⟩

/-- A packet without a share in a message leaves all buffers alone. -/
theorem agrees_unshared (heldBy : decoder.HeldBy buffers) (unshared : packet.share? = none) :
    Agrees (some (decoder.feed packet, buffers)) (decoder.feed packet) := by
  refine ⟨buffers, rfl, fun cable => ?_⟩
  rw [(decoder.feed_unshared cable unshared).2.1]
  exact heldBy cable

theorem agrees_feed (heldBy : decoder.HeldBy buffers) (packet : EventPacket) :
    Agrees (decoder.guardedFeed buffers packet) (decoder.feed packet) := by
  unfold guardedFeed
  split
  case h_1 code =>
    simp only [feed, code]
    exact heldBy.agrees_takeSysEx false rfl
  case h_2 code =>
    split
    · rename_i ends
      simp only [feed, code, if_pos ends]
      exact heldBy.agrees_takeSysEx true rfl
    · rename_i other
      exact heldBy.agrees_unshared (by simp [EventPacket.share?, code, other])
  case h_3 code =>
    simp only [feed, code]
    exact heldBy.agrees_takeSysEx true rfl
  case h_4 code =>
    simp only [feed, code]
    exact heldBy.agrees_takeSysEx true rfl
  case h_5 =>
    refine heldBy.agrees_unshared ?_
    unfold EventPacket.share?
    split
    case h_1 | h_2 | h_3 | h_4 => contradiction
    case h_5 => rfl

theorem agrees_resume (heldBy : decoder.HeldBy buffers) :
    Agrees (decoder.guardedResume buffers) decoder.resume := by
  have taken : HeldBy { decoder with held := none } buffers := heldBy
  unfold guardedResume resume
  cases decoder.held with
  | none => exact ⟨buffers, rfl, heldBy⟩
  | some packet => exact taken.agrees_feed packet

/-- A scan passes all checks, from packet to packet. -/
theorem exists_guardedScan (heldBy : decoder.HeldBy buffers) (input : List EventPacket) :
    ∃ next, decoder.guardedScan buffers input = some (decoder.scan input, next) ∧
      (decoder.scan input).decoder.HeldBy next := by
  induction input generalizing decoder buffers with
  | nil => exact ⟨buffers, rfl, heldBy⟩
  | cons packet rest ih =>
    obtain ⟨fed, agrees, kept⟩ := heldBy.agrees_feed packet
    unfold guardedScan scan
    split
    · exact ⟨buffers, rfl, heldBy⟩
    · rw [agrees]
      generalize decoder.feed packet = outcome at kept
      obtain ⟨next, event?⟩ := outcome
      cases event? with
      | some event => exact ⟨fed, rfl, kept⟩
      | none => exact ih kept

/-- A pull passes all checks. -/
theorem exists_guardedPull (heldBy : decoder.HeldBy buffers) (input : List EventPacket) :
    ∃ next, decoder.guardedPull buffers input = some (decoder.pull input, next) ∧
      (decoder.pull input).decoder.HeldBy next := by
  obtain ⟨resumed, agrees, kept⟩ := heldBy.agrees_resume
  rw [guardedPull, pull, agrees]
  generalize decoder.resume = outcome at kept
  obtain ⟨next, event?⟩ := outcome
  cases event? with
  | some event => exact ⟨resumed, rfl, kept⟩
  | none => exact kept.exists_guardedScan input

/-- No guard fails in a run. -/
theorem exists_guardedRun (heldBy : decoder.HeldBy buffers) (inputs : List (List EventPacket)) :
    ∃ final, decoder.guardedRun buffers inputs = some (decoder.run inputs, final) ∧
      (decoder.run inputs).HeldBy final := by
  induction inputs generalizing decoder buffers with
  | nil => exact ⟨buffers, rfl, heldBy⟩
  | cons input inputs ih =>
    obtain ⟨next, pulled, kept⟩ := heldBy.exists_guardedPull input
    rw [guardedRun, pulled]
    exact ih kept

end HeldBy

end Decoder

end MidiTransport.Usb
