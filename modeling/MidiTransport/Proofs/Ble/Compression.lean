import MidiTransport.Proofs.Ble.Additions
import MidiTransport.Proofs.Ble.Stamping

/-!
# What is left out of a packet

Of its messages a packet leaves out only what the messages in front of them in the same packet say
already: the status byte of a channel message that repeats the latest status, and its time byte too
if it repeats that of the message right in front of it. `compressed` says so in terms of these
messages alone. A packer keeps a status and a time instead (`Packer.Mirrors`), and the time even
outlives the packet, but what it writes is decided by the messages (`Packer.bytes_addAll_reset`).
-/

namespace MidiTransport

/-- The header of a channel message is a status byte, and a system exclusive message starts with
its start byte. -/
def Message.Marked : Message → Prop
  | .channel message => 0x80 ≤ message.header
  | .sysEx piece => piece.data.head? = some sysExStart
  | _ => True

instance : DecidablePred Message.Marked := fun message => by
  cases message <;> unfold Message.Marked <;> infer_instance

namespace Ble

/-! ## The shortest form of messages -/

/-- The status of the latest channel message, unless a system exclusive message was started behind
it. The newest message comes first. -/
def latestStatus? : List (Message × Nat) → Option UInt8
  | [] => none
  | (.channel message, _) :: _ => some message.header
  | (.sysEx _, _) :: _ => none
  | (.common _, _) :: earlier | (.realTime _, _) :: earlier => latestStatus? earlier

/-- The time byte of the message right in front, if it is a channel message. -/
def precedingTime? : List (Message × Nat) → Option UInt8
  | (.channel _, time) :: _ => some (timeByte time)
  | _ => none

/-- How a message stands in a packet behind earlier ones. -/
def abridged (earlier : List (Message × Nat)) (time : Nat) : Message → List UInt8
  | .channel message =>
    if latestStatus? earlier = some message.header then
      if precedingTime? earlier = some (timeByte time) then message.dataBytes
      else timeByte time :: message.dataBytes
    else timeByte time :: message.header :: message.dataBytes
  | .common message => timeByte time :: message.header :: message.dataBytes
  | .realTime message => [timeByte time, message.byte]
  | .sysEx piece => (Packer.pieceEntries time piece.data).flatten

/-- How messages stand in a packet behind earlier ones. -/
def abridgedAll (earlier : List (Message × Nat)) : List (Message × Nat) → List UInt8
  | [] => []
  | (message, time) :: later =>
    abridged earlier time message ++ abridgedAll ((message, time) :: earlier) later

/-- The packet of these messages. -/
def compressed : List (Message × Nat) → List UInt8
  | [] => []
  | (message, time) :: later => headerByte time :: abridgedAll [] ((message, time) :: later)

namespace Packer

/-- Add messages one after the other, each as a whole, if none of them is refused. -/
def addAll (packer : Packer) : List (Message × Nat) → Option Packer
  | [] => some packer
  | (message, time) :: later =>
    let (next, added) := packer.addMessage message time
    if added then next.addAll later else none

variable {packer next : Packer} {earlier later : List (Message × Nat)} {message : Message}
  {time : Nat}

/-! ## What the packer keeps -/

/-- The running status and the running time are those of the messages in the packet. The running
time does not matter where there is no running status. -/
structure Mirrors (packer : Packer) (earlier : List (Message × Nat)) : Prop where
  status : packer.runningStatus = (latestStatus? earlier).getD 0
  time : (latestStatus? earlier).isSome → packer.runningTime = (precedingTime? earlier).getD 0

theorem mirrors_reset (packer : Packer) : packer.reset.Mirrors [] where
  status := rfl
  time := by simp [latestStatus?]

/-- The header of a channel message is never the value that stands for none. -/
theorem ne_zero_of_marked {message : ChannelMessage} (marked : (Message.channel message).Marked) :
    message.header ≠ 0 := by
  intro zero
  rw [Message.Marked, zero] at marked
  exact absurd marked (by decide)

/-- A packer writes what its messages ask for. -/
theorem Mirrors.written_eq (mirrors : packer.Mirrors earlier) (marked : message.Marked)
    (time : Nat) : packer.written time message = abridged earlier time message := by
  cases message with
  | channel message =>
    have nonzero := ne_zero_of_marked marked
    have stamped := timeByte_ne_zero time
    have status := mirrors.status
    have running := mirrors.time
    rw [written, lead, abridged]
    cases latest : latestStatus? earlier with
    | none =>
      rw [latest, Option.getD_none] at status
      simp [status, nonzero]
    | some header =>
      rw [latest, Option.getD_some] at status
      rw [running (by rw [latest]; rfl), status]
      cases precedingTime? earlier with
      | none => grind
      | some preceding => grind
  | common message => rfl
  | realTime message => rfl
  | sysEx piece => rfl

/-- The rest of a system exclusive message leaves the running status alone. -/
theorem runningStatus_continueSysEx (packer : Packer) (data : List UInt8) (time : Nat) :
    (packer.continueSysEx data time).1.runningStatus = packer.runningStatus := by
  rcases List.eq_nil_or_concat data with rfl | ⟨front, last, rfl⟩
  · rfl
  · rw [List.concat_eq_append, continueSysEx_concat]
    dsimp only
    split <;> rfl

/-- The start of a system exclusive message takes the running status away. -/
theorem runningStatus_addMessage_sysEx {piece : SysExPiece}
    (starts : piece.data.head? = some sysExStart)
    (added : packer.addMessage (.sysEx piece) time = (next, true)) : next.runningStatus = 0 := by
  have taken := addMessage_sysEx_iff.mp added
  obtain ⟨rest, spelled⟩ := List.head?_eq_some_iff.mp starts
  rw [spelled, addSysEx_start, ite_eq_true_iff] at taken
  have status := congrArg (·.1.runningStatus) taken.2
  rw [runningStatus_continueSysEx] at status
  exact status.symm

/-- The packer keeps up with its messages. -/
theorem Mirrors.add (mirrors : packer.Mirrors earlier) (marked : message.Marked)
    (added : packer.addMessage message time = (next, true)) :
    next.Mirrors ((message, time) :: earlier) := by
  cases message with
  | channel message =>
    rw [addMessage, addChannel_eq, ite_eq_true_iff] at added
    obtain ⟨-, rfl⟩ := added
    exact ⟨rfl, fun _ => rfl⟩
  | common message =>
    rw [addMessage, addCommon_eq, ite_eq_true_iff] at added
    obtain ⟨-, rfl⟩ := added
    exact ⟨mirrors.status, fun _ => rfl⟩
  | realTime message =>
    rw [addMessage, addRealTime_eq, ite_eq_true_iff] at added
    obtain ⟨-, rfl⟩ := added
    exact ⟨mirrors.status, fun _ => rfl⟩
  | sysEx piece => exact ⟨runningStatus_addMessage_sysEx marked added, by simp [latestStatus?]⟩

/-! ## All messages of a packet -/

/-- Adding ends with this packet if it keeps to the capacity, and is refused otherwise. -/
def EndsWith (packer : Packer) (packet : List UInt8) (outcome : Option Packer) : Prop :=
  outcome.map (·.bytes) = if packet.length ≤ packer.capacity.size then some packet else none

/-- A message is added in front of others. -/
theorem Mirrors.addAll_cons (mirrors : packer.Mirrors earlier) (time : Nat)
    (later : List (Message × Nat)) (tail : List UInt8) (marked : message.Marked)
    (within : (packer.opened time).length ≤ packer.capacity.size)
    (rest : ∀ {next : Packer}, next.Mirrors ((message, time) :: earlier) → next.bytes ≠ [] →
      next.length ≤ next.capacity.size → next.EndsWith (next.bytes ++ tail) (next.addAll later)) :
    packer.EndsWith (packer.opened time ++ (abridged earlier time message ++ tail))
      (packer.addAll ((message, time) :: later)) := by
  have room := room_eq packer time
  have admitted := addMessage_accepted_iff packer message time
  have receives : ∀ piece, message = .sysEx piece → packer.Receives piece.data := by
    rintro piece rfl
    exact .inl marked
  rw [and_iff_right receives, mirrors.written_eq marked] at admitted
  rw [EndsWith, addAll]
  rcases added : packer.addMessage message time with ⟨next, _ | _⟩
  · rw [added] at admitted
    -- One message that does not fit is enough for the whole packet not to fit.
    rw [if_neg]
    · rfl
    · simp only [Bool.false_eq_true, false_iff] at admitted
      simp only [List.length_append]
      omega
  · obtain ⟨bytes, capacity⟩ := addMessage_appends added
    have fills := addMessage_fillsUp added
    rw [mirrors.written_eq marked] at bytes
    have begun : next.bytes ≠ [] := by
      rw [bytes]
      unfold opened isEmpty
      cases packer.bytes <;> simp
    have bounded : next.length ≤ next.capacity.size := by
      rw [capacity]
      exact Nat.le_trans fills.bounded (Nat.max_le.mpr ⟨Nat.le_refl _, within⟩)
    have ends := rest (mirrors.add marked added) begun bounded
    rwa [EndsWith, capacity, bytes, List.append_assoc] at ends

/-- What is added to a packet that has been begun follows from the messages in it. -/
theorem Mirrors.addAll {messages : List (Message × Nat)} (mirrors : packer.Mirrors earlier)
    (begun : packer.bytes ≠ []) (within : packer.length ≤ packer.capacity.size)
    (marked : ∀ call ∈ messages, call.1.Marked) :
    packer.EndsWith (packer.bytes ++ abridgedAll earlier messages) (packer.addAll messages) := by
  induction messages generalizing packer earlier with
  | nil =>
    rw [abridgedAll, List.append_nil]
    exact (if_pos within).symm
  | cons call later ih =>
    obtain ⟨message, time⟩ := call
    have opened := opened_of_ne_nil begun time
    have first := mirrors.addAll_cons time later (abridgedAll ((message, time) :: earlier) later)
      (marked (message, time) (by simp))
      (by rwa [opened])
      (fun still begun within => ih still begun within fun call member =>
        marked call (by simp [member]))
    rwa [opened] at first

/-- A new packet of these messages is their compressed form, which depends on nothing that came
before the packet. They are all accepted exactly if it keeps to the capacity. -/
theorem bytes_addAll_reset (packer : Packer) (messages : List (Message × Nat))
    (marked : ∀ call ∈ messages, call.1.Marked) :
    (packer.reset.addAll messages).map (·.bytes) =
      if (compressed messages).length ≤ packer.capacity.size then some (compressed messages)
      else none := by
  cases messages with
  | nil => rfl
  | cons call later =>
    obtain ⟨message, time⟩ := call
    have wide := packer.capacity.least_le_size
    have opened : packer.reset.opened time = [headerByte time] := opened_of_nil rfl time
    have ends := packer.mirrors_reset.addAll_cons time later (abridgedAll [(message, time)] later)
      (marked (message, time) (by simp))
      (by rw [opened]; exact Nat.le_trans (Nat.le_add_left 1 4) wide)
      (fun still begun within => still.addAll begun within fun call member =>
        marked call (by simp [member]))
    rw [opened] at ends
    exact ends

/-- A packer that has just written the time byte of 69 behind a status. -/
def usedPacker : Packer :=
  ((initial .default).addAll [(.channel ⟨0x90, 0x40, 0x41, .first⟩, 69)]).getD (initial .default)

/-- Messages of all kinds that repeat a status: at once, behind a clock byte, and behind a system
exclusive message. -/
def repetitiveMessages : List (Message × Nat) :=
  [(.channel ⟨0xC5, 0x10, 0, .first⟩, 69), (.channel ⟨0xC5, 0x11, 0, .first⟩, 69),
    (.channel ⟨0xC5, 0x12, 0, .first⟩, 70), (.realTime ⟨0xF8, .first⟩, 70),
    (.channel ⟨0xC5, 0x13, 0, .first⟩, 70),
    (.sysEx ⟨[0xF0, 0x01, 0xF7], .first, true, true⟩, 71),
    (.channel ⟨0xC5, 0x14, 0, .first⟩, 71)]

/-- Their packet, with all left out that a reader fills in. -/
theorem bytes_addAll_reset_repetitive :
    (∀ call ∈ repetitiveMessages, call.1.Marked) ∧
      (usedPacker.reset.addAll repetitiveMessages).map (·.bytes) =
        some [0x80, 0xC5, 0xC5, 0x10, 0x11, 0xC6, 0x12, 0xC6, 0xF8, 0xC6, 0x13, 0xC7, 0xF0, 0x01,
          0xC7, 0xF7, 0xC7, 0xC5, 0x14] := by
  have marked : ∀ call ∈ repetitiveMessages, call.1.Marked := by decide +kernel
  refine ⟨marked, ?_⟩
  rw [bytes_addAll_reset usedPacker repetitiveMessages marked]
  decide +kernel

end Packer

end Ble

end MidiTransport
