import MidiTransport.Proofs.Ble.Additions
import MidiTransport.Proofs.Ble.Transmission

/-!
# How a system exclusive message spreads over packets

A packet that has no room for all of a system exclusive message is sent, and a new one takes as much
of the rest as it has room for. A new packet takes at least one byte, so this comes to an end, and
the packets share out the entries of the message in order (`Transmitter.send_spreads`). A new packet
also takes every other message, so nothing is ever dropped.
-/

namespace MidiTransport.Ble

/-- A new packet takes an entry of a system exclusive message. -/
theorem Packer.FillsUp.positive {packer next : Packer} {time count : Nat}
    {entries : List (List UInt8)} (fills : packer.FillsUp next time entries count)
    (empty : packer.bytes = []) (nonempty : entries ≠ [])
    (short : ∀ entry ∈ entries, entry.length ≤ 2) : 0 < count := by
  refine Nat.pos_of_ne_zero ?_
  rintro rfl
  have wide := packer.capacity.least_le_size
  obtain ⟨entry, others, rfl⟩ := List.exists_cons_of_ne_nil nonempty
  have tight := fills.full entry rfl
  have small := short entry List.mem_cons_self
  have alone : next.length = 1 := by
    rw [Packer.length, fills.bytes]
    simp [Packer.opened, Packer.isEmpty, empty]
  omega

namespace Transmitter

/-! ## Rounds of the loop -/

/-- A transmitter between two rounds of the loop that sends what is left of a system exclusive
message. -/
structure Progress where
  transmitter : Transmitter
  left : List UInt8
  /-- The packets that have been sent so far. -/
  sent : List (List UInt8)

/-- A round of the loop: the packet under way is sent, and a new one takes what it has room for. -/
def Progress.round (progress : Progress) (time now : Nat) : Progress :=
  let flushed := progress.transmitter.flush
  let continued := flushed.1.packer.continueSysEx progress.left time
  ⟨{ flushed.1 with packer := continued.1 }.start now, continued.2, progress.sent ++ flushed.2⟩

/-- The loop ends after so many rounds, when nothing is left. -/
inductive Loops (time now : Nat) : Progress → Nat → Progress → Prop where
  | done {progress : Progress} (finished : progress.left = []) : Loops time now progress 0 progress
  | round {progress final : Progress} {rounds : Nat} (more : progress.left ≠ [])
      (later : Loops time now (progress.round time now) rounds final) :
      Loops time now progress (rounds + 1) final

section Rest

variable {transmitter : Transmitter}

/-- A flush sends the packet under way. -/
theorem flush_sent (begun : transmitter.packer.bytes ≠ []) :
    transmitter.flush.2 = [transmitter.packer.bytes] := by
  unfold flush
  rw [if_neg]
  simpa [Packer.isEmpty] using begun

/-- Behind a packet with a header, every round of the loop puts a part of the entries into a new
packet. -/
theorem sendRest_loops (rest : List UInt8) (time now : Nat) (before : List (List UInt8))
    (begun : transmitter.packer.bytes ≠ []) :
    ∃ parts : List (List (List UInt8)),
      Loops time now ⟨transmitter, rest, before⟩ parts.length
        ⟨(transmitter.sendRest rest time now).1, [],
          before ++ (transmitter.sendRest rest time now).2⟩ ∧
      parts.flatten = Packer.restEntries time rest ∧ (∀ part ∈ parts, part ≠ []) ∧
      (transmitter.sendRest rest time now).2 ++
          [(transmitter.sendRest rest time now).1.packer.bytes] =
        transmitter.packer.bytes :: parts.map (headerByte time :: ·.flatten) := by
  fun_induction sendRest transmitter rest time now generalizing before with
  | case1 transmitter =>
    refine ⟨[], ?_, rfl, by simp, rfl⟩
    rw [List.append_nil]
    exact .done rfl
  | case2 transmitter rest more continued final others equation ih =>
    rw [equation] at ih
    obtain ⟨count, fills, behind⟩ :=
      Packer.continueSysEx_fillsUp transmitter.flush.1.packer rest time
    have entries : Packer.restEntries time rest ≠ [] := by
      simpa [← List.length_pos_iff] using more
    -- An empty packet takes at least one entry, so every round makes progress.
    have positive := fills.positive transmitter.bytes_flush entries fun entry member =>
      (Packer.length_of_mem_restEntries member).2
    have bytes : continued.1.bytes =
        headerByte time :: ((Packer.restEntries time rest).take count).flatten := by
      rw [fills.bytes]
      simp [Packer.opened, Packer.isEmpty]
    have opened : ({ transmitter.flush.1 with packer := continued.1 }.start now).packer.bytes ≠
        [] := by
      rw [start, bytes]
      exact List.cons_ne_nil _ _
    obtain ⟨parts, loops, shared, nonempty, packets⟩ := ih (before ++ transmitter.flush.2) opened
    refine ⟨(Packer.restEntries time rest).take count :: parts, ?_, ?_, ?_, ?_⟩
    · rw [← List.append_assoc]
      exact .round more loops
    · rw [List.flatten_cons, shared, behind, ← Packer.drop_restEntries, List.take_append_drop]
    · refine List.forall_mem_cons.mpr ⟨?_, nonempty⟩
      simp [entries, Nat.ne_of_gt positive]
    · rw [flush_sent begun, List.append_assoc, packets, start, bytes]
      rfl

end Rest

/-! ## Messages -/

/-- The entries of a piece are shared out, the first of them to the packet that goes on and all
others to new packets. -/
structure Spreads (transmitter : Transmitter) (piece : SysExPiece) (time now : Nat)
    (loaded : Transmitter) (cleared first : List (List UInt8))
    (more : List (List (List UInt8))) : Prop where
  clears : transmitter.Clears loaded cleared
  /-- The loop begins when the first packet has been filled up, and ends with the answer. -/
  loops : ∃ packer left, loaded.packer.addSysEx piece.data time = ((packer, left), true) ∧
    Loops time now ⟨{ loaded with packer }.start now, left, cleared⟩ more.length
      ⟨(transmitter.send (.sysEx piece) time now).1, [],
        (transmitter.send (.sysEx piece) time now).2⟩
  /-- Every new packet takes at least one of the bytes that are left. -/
  nonempty : ∀ part ∈ more, part ≠ []
  rounds : more.length ≤ piece.data.length
  entries : (first :: more).flatten = Packer.pieceEntries time piece.data
  /-- The entries end with the bytes of the piece, in order. -/
  conserved : (first :: more).flatten.map (·.getLast?) = piece.data.map some
  /-- These are the packets, together with the one under way. -/
  packets : (transmitter.send (.sysEx piece) time now).2 ++
      [(transmitter.send (.sysEx piece) time now).1.packer.bytes] =
    cleared ++ (loaded.packer.opened time ++ first.flatten) ::
      more.map (headerByte time :: ·.flatten)

/-- There are at most as many parts as entries, as none of them is empty. -/
theorem length_le_of_flatten {Entry : Type} {parts : List (List Entry)}
    (nonempty : ∀ part ∈ parts, part ≠ []) : parts.length ≤ parts.flatten.length := by
  induction parts with
  | nil => exact Nat.le_refl 0
  | cons part parts ih =>
    obtain ⟨here, later⟩ := List.forall_mem_cons.mp nonempty
    have positive := List.length_pos_iff.mpr here
    have others := ih later
    simp only [List.length_cons, List.flatten_cons, List.length_append]
    omega

/-- Whatever the transmitter is in the middle of, it shares out the entries of a piece. -/
theorem sendSysEx_spreads (transmitter : Transmitter) (piece : SysExPiece) (time now : Nat) :
    ∃ loaded cleared first more, transmitter.Spreads piece time now loaded cleared first more := by
  obtain ⟨loaded, cleared, packer, left, clears, added, equation⟩ :=
    transmitter.sendSysEx_cases piece time now
  obtain ⟨count, fills, behind, others⟩ := Packer.addSysEx_fillsUp added
  have begun : ({ loaded with packer }.start now).packer.bytes ≠ [] := by
    rw [start, fills.bytes, Packer.opened]
    split <;> simp_all [Packer.isEmpty]
  obtain ⟨more, loops, shared, nonempty, packets⟩ :=
    sendRest_loops left time now cleared begun
  have entries : ((Packer.pieceEntries time piece.data).take count :: more).flatten =
      Packer.pieceEntries time piece.data := by
    rw [List.flatten_cons, shared, others, List.take_append_drop]
  refine ⟨loaded, cleared, _, more, clears, ⟨packer, left, added, ?_⟩, nonempty, ?_, entries, ?_,
    ?_⟩
  · rw [send, equation]
    exact loops
  · have long := length_le_of_flatten nonempty
    have total := congrArg List.length shared
    rw [others, List.length_drop, Packer.length_pieceEntries] at total
    omega
  · rw [entries, Packer.getLast?_pieceEntries]
  · rw [send, equation]
    dsimp only
    rw [List.append_assoc, packets, start, fills.bytes]

/-- Every message finds its place. A system exclusive message spreads over packets until nothing of
it is left, any other message goes into one packet, and a packet that has just been begun refuses
neither. -/
theorem send_spreads (transmitter : Transmitter) (time now : Nat) :
    (∀ piece, ∃ loaded cleared first more,
      transmitter.Spreads piece time now loaded cleared first more) ∧
    (∀ message, (∀ piece, message ≠ .sysEx piece) → ∃ loaded cleared packer,
      transmitter.Clears loaded cleared ∧ loaded.packer.addMessage message time = (packer, true) ∧
        transmitter.send message time now = ({ loaded with packer }.start now, cleared)) ∧
    (∀ message, (∀ piece, message ≠ .sysEx piece) →
      (transmitter.flush.1.packer.addMessage message time).2 = true) ∧
    ∀ data, (transmitter.flush.1.packer.addSysEx data time).2 = true := by
  refine ⟨fun piece => transmitter.sendSysEx_spreads piece time now, fun message whole => ?_,
    fun message whole => Packer.addMessage_accepted transmitter.bytes_flush whole time,
    fun data => Packer.addSysEx_accepted transmitter.bytes_flush data time⟩
  have placed := transmitter.sendWhole_cases time now whole
  cases message with
  | sysEx piece => exact absurd rfl (whole piece)
  | _ => exact placed

end Transmitter

end MidiTransport.Ble
