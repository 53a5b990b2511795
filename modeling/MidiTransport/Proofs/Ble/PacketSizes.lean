import MidiTransport.Proofs.Ble.Additions
import MidiTransport.Proofs.Ble.Transmission

/-!
# The length of packets

The calls of a transmitter settle how long its packets may be, and nothing else does (`Terms`). All
other calls leave the capacity alone and keep to it, however often they send the packet under way
and begin a new one (`Transmitter.KeepsTo`). A call that lowers the capacity first sends a packet
that has become too long, so no packet is longer than what was settled before the call that sends it
(`Transmitter.packets_keep_size`).
-/

namespace MidiTransport.Ble

/-! ## Terms -/

/-- What calls have settled about the length of packets. -/
structure Terms where
  /-- The smallest transfer unit of all clients. -/
  transferUnit : Nat
  /-- An upper limit for the transfer unit. -/
  forcedUnit : Option Nat
  deriving DecidableEq, Repr

namespace Terms

/-- The terms of a link on which nothing has been settled. -/
def initial : Terms := ⟨23, none⟩

/-- Settle what a call says about the length of packets. -/
def settle (terms : Terms) : Command → Terms
  | .setTransferUnit transferUnit => { terms with transferUnit }
  | .forceUnit forcedUnit => { terms with forcedUnit }
  | _ => terms

/-- The size of packets under these terms. A transfer takes three bytes of its unit. -/
def packetSize (terms : Terms) : Nat :=
  max 5 (min (terms.forcedUnit.elim terms.transferUnit (min terms.transferUnit) - 3) 20)

/-- Whatever has been settled, packets of this size may be sent. -/
def capacity (terms : Terms) : Capacity where
  size := terms.packetSize
  least_le_size := Nat.le_max_left _ _
  size_le_greatest := Nat.max_le.mpr ⟨by decide, Nat.min_le_right _ _⟩

end Terms

/-- The terms behind calls on a new link. -/
def termsAfter (commands : List Command) : Terms := commands.foldl Terms.settle .initial

/-- Does a call settle the terms anew? -/
def Command.settles : Command → Bool
  | .setTransferUnit _ | .forceUnit _ => true
  | _ => false

/-- Most commands leave the terms as they are. -/
theorem Terms.settle_of_quiet {command : Command} (quiet : command.settles = false)
    (terms : Terms) : terms.settle command = terms := by
  cases command with
  | setTransferUnit | forceUnit => cases quiet
  | _ => rfl

/-- A packet of at most this size. Its first byte is a header. -/
structure IsPacket (size : Nat) (bytes : List UInt8) : Prop where
  header : ∃ first rest, bytes = first :: rest ∧ 0x80 ≤ first
  within : bytes.length ≤ size

/-- A header has its high bit set. -/
theorem headerByte_ge (time : Nat) : 0x80 ≤ headerByte time := by
  rw [UInt8.le_iff_toNat_le, toNat_headerByte]
  exact Nat.le_add_right 0x80 _

namespace Packer

variable {packer next : Packer} {time count : Nat} {entries : List (List UInt8)}

/-- The packet under way has not been begun, or it is within the capacity. -/
def Ready (packer : Packer) : Prop := packer.bytes ≠ [] → IsPacket packer.capacity.size packer.bytes

/-- An empty packet is always ready. -/
theorem ready_of_empty (empty : packer.bytes = []) : packer.Ready := fun begun => absurd empty begun

/-- A packet that is ready is within its capacity. -/
theorem Ready.length_le (ready : packer.Ready) : packer.length ≤ packer.capacity.size := by
  by_cases empty : packer.bytes = []
  · simp [Packer.length, empty]
  · exact (ready empty).within

/-- What is added stands behind a header and keeps to the capacity. -/
theorem FillsUp.ready (fills : packer.FillsUp next time entries count) (ready : packer.Ready) :
    next.Ready := by
  intro _
  have short := fills.bounded_length
  rw [Nat.max_eq_left ready.length_le] at short
  refine ⟨?_, fills.capacity ▸ short⟩
  rw [fills.bytes]
  by_cases empty : packer.bytes = []
  · exact ⟨headerByte time, (entries.take count).flatten, by simp [opened, isEmpty, empty],
      headerByte_ge time⟩
  · obtain ⟨first, rest, split, header⟩ := (ready empty).header
    exact ⟨first, rest ++ (entries.take count).flatten, by simp [opened, isEmpty, split], header⟩

end Packer

namespace Transmitter

/-! ## Calls that keep to the terms -/

variable {transmitter : Transmitter} {outcome : Transmitter × List (List UInt8)} {time now : Nat}

/-- What has been settled on a transmitter. -/
def terms (transmitter : Transmitter) : Terms := ⟨transmitter.transferUnit, transmitter.forcedUnit⟩

/-- The terms and the capacity are left alone, and all packets are within the capacity. -/
structure KeepsTo (transmitter : Transmitter) (outcome : Transmitter × List (List UInt8)) :
    Prop where
  terms : outcome.1.terms = transmitter.terms
  capacity : outcome.1.packer.capacity = transmitter.packer.capacity
  ready : outcome.1.packer.Ready
  sent : ∀ packet ∈ outcome.2, IsPacket transmitter.packer.capacity.size packet

namespace KeepsTo

/-- A transmitter that sends nothing keeps to its capacity as long as its packet does. -/
theorem silent {other : Transmitter} (terms : other.terms = transmitter.terms)
    (capacity : other.packer.capacity = transmitter.packer.capacity) (ready : other.packer.Ready) :
    transmitter.KeepsTo (other, []) :=
  ⟨terms, capacity, ready, fun _ member => absurd member List.not_mem_nil⟩

theorem refl (ready : transmitter.packer.Ready) : transmitter.KeepsTo (transmitter, []) :=
  silent rfl rfl ready

theorem trans {next final : Transmitter} {front back : List (List UInt8)}
    (early : transmitter.KeepsTo (next, front)) (late : next.KeepsTo (final, back)) :
    transmitter.KeepsTo (final, front ++ back) where
  terms := late.terms.trans early.terms
  capacity := late.capacity.trans early.capacity
  ready := late.ready
  sent := List.forall_mem_append.mpr ⟨early.sent, early.capacity ▸ late.sent⟩

end KeepsTo

/-- The pending packet was within the capacity, and an empty one is behind it. -/
theorem keepsTo_flush (ready : transmitter.packer.Ready) :
    transmitter.KeepsTo transmitter.flush := by
  unfold flush
  split
  · exact .silent rfl rfl ready
  · rename_i begun
    have some_ : transmitter.packer.bytes ≠ [] := by simpa [Packer.isEmpty] using begun
    exact ⟨rfl, rfl, Packer.ready_of_empty rfl, List.forall_mem_singleton.mpr (ready some_)⟩

/-- Clearing the way for more bytes sends the pending packet at most. -/
theorem Clears.keepsTo {loaded : Transmitter} {cleared : List (List UInt8)}
    (clears : transmitter.Clears loaded cleared) (ready : transmitter.packer.Ready) :
    transmitter.KeepsTo (loaded, cleared) := by
  cases clears with
  | kept => exact .refl ready
  | flushed => exact keepsTo_flush ready

/-- Something has been added to the packet under way. -/
theorem keepsTo_load {next : Packer} {count : Nat} {entries : List (List UInt8)} (now : Nat)
    (ready : transmitter.packer.Ready)
    (fills : transmitter.packer.FillsUp next time entries count) :
    transmitter.KeepsTo ({ transmitter with packer := next }.start now, []) :=
  .silent rfl fills.capacity (fills.ready ready)

/-- Each round sends the pending packet and fills an empty one up to its capacity. -/
theorem keepsTo_sendRest (rest : List UInt8) (time now : Nat) (ready : transmitter.packer.Ready) :
    transmitter.KeepsTo (transmitter.sendRest rest time now) := by
  fun_induction sendRest transmitter rest time now with
  | case1 transmitter => exact .refl ready
  | case2 transmitter rest more continued final others equation ih =>
    have flushed := keepsTo_flush ready
    obtain ⟨count, fills, -⟩ :=
      Packer.continueSysEx_fillsUp transmitter.flush.1.packer rest time
    have loaded := keepsTo_load now flushed.ready fills
    have later := ih loaded.ready
    rw [equation] at later
    exact flushed.trans (loaded.trans later)

/-- Sending a message, in however many packets, keeps to the capacity. -/
theorem keepsTo_send (message : Message) (time now : Nat) (ready : transmitter.packer.Ready) :
    transmitter.KeepsTo (transmitter.send message time now) := by
  have whole (single : ∀ piece, message ≠ .sysEx piece) :
      transmitter.KeepsTo (transmitter.sendWhole message time now) := by
    obtain ⟨loaded, cleared, packer, clears, added, equation⟩ :=
      transmitter.sendWhole_cases time now single
    have begun := clears.keepsTo ready
    have later := keepsTo_load now begun.ready (Packer.addMessage_fillsUp added)
    rw [equation, ← List.append_nil cleared]
    exact begun.trans later
  cases message with
  | sysEx piece =>
    obtain ⟨loaded, cleared, packer, left, clears, added, equation⟩ :=
      transmitter.sendSysEx_cases piece time now
    obtain ⟨count, fills, -⟩ := Packer.addSysEx_fillsUp added
    have begun := clears.keepsTo ready
    have later := keepsTo_load now begun.ready fills
    rw [send, equation]
    exact begun.trans (later.trans (keepsTo_sendRest left time now later.ready))
  | channel message => exact whole (by simp)
  | common message => exact whole (by simp)
  | realTime message => exact whole (by simp)

/-- Calls that settle nothing keep to what has been settled. -/
theorem keepsTo_perform {command : Command} (quiet : command.settles = false)
    (ready : transmitter.packer.Ready) : transmitter.KeepsTo (transmitter.perform command) := by
  cases command with
  | send message time now => exact keepsTo_send message time now ready
  | poll now =>
    rw [perform, poll]
    split
    · exact .refl ready
    · split
      · exact keepsTo_flush ready
      · exact .refl ready
  | flush => exact keepsTo_flush ready
  | setTimeout timeout => exact .silent rfl rfl ready
  | setTransferUnit | forceUnit => cases quiet

/-- Between changes of the terms all packets keep to the capacity. -/
theorem keepsTo_run {commands : List Command}
    (quiet : ∀ command ∈ commands, command.settles = false) (ready : transmitter.packer.Ready) :
    transmitter.KeepsTo (transmitter.run commands) := by
  induction commands generalizing transmitter with
  | nil => exact .refl ready
  | cons command later ih =>
    obtain ⟨here, others⟩ := List.forall_mem_cons.mp quiet
    have first := keepsTo_perform here ready
    exact first.trans (ih others first.ready)

/-! ## Calls that settle the terms -/

/-- The unit in force gives the packet size of the terms. -/
theorem packetSize_effectiveUnit (transmitter : Transmitter) :
    packetSize transmitter.effectiveUnit = transmitter.terms.packetSize := by
  unfold packetSize effectiveUnit terms Terms.packetSize Capacity.least Capacity.greatest
    transferOverhead
  cases transmitter.forcedUnit with
  | none => rfl
  | some forced => simp [Nat.min_comm]

/-- A packet size is never too small for a packet. -/
theorem setCapacity_packetSize (packer : Packer) (terms : Terms) :
    packer.setCapacity terms.packetSize = .ok { packer with capacity := terms.capacity } := by
  have within : Capacity.least ≤ terms.packetSize ∧ terms.packetSize ≤ Capacity.greatest :=
    ⟨terms.capacity.least_le_size, terms.capacity.size_le_greatest⟩
  rw [Packer.setCapacity, Capacity.ofSize, dif_pos within]
  rfl

/-- The packet under way is sent if it has become too long, and then the packer takes the capacity
that has been settled. -/
theorem applyUnit_cases (transmitter : Transmitter) :
    ∃ loaded cleared, transmitter.Clears loaded cleared ∧
      loaded.packer.length ≤ transmitter.terms.packetSize ∧
      transmitter.applyUnit =
        ({ loaded with packer := { loaded.packer with capacity := transmitter.terms.capacity } },
          cleared) := by
  unfold applyUnit
  rw [packetSize_effectiveUnit]
  by_cases long : transmitter.terms.packetSize < transmitter.packer.length
  · refine ⟨_, _, .flushed, by simp [Packer.length], ?_⟩
    simp only [if_pos long, setCapacity_packetSize]
  · refine ⟨transmitter, [], .kept, Nat.le_of_not_lt long, ?_⟩
    simp only [if_neg long, setCapacity_packetSize]

/-- The packer has the capacity that has been settled, and keeps to it. -/
structure Honours (transmitter : Transmitter) (terms : Terms) : Prop where
  settled : transmitter.terms = terms
  capacity : transmitter.packer.capacity.size = terms.packetSize
  ready : transmitter.packer.Ready

theorem honours_initial : initial.Honours .initial := ⟨rfl, rfl, Packer.ready_of_empty rfl⟩

/-- Behind a change of the unit the new terms are honoured, and the packet that had to go was within
the old ones. -/
theorem honours_applyUnit (transmitter : Transmitter) (ready : transmitter.packer.Ready) :
    transmitter.applyUnit.1.Honours transmitter.terms ∧
      ∀ packet ∈ transmitter.applyUnit.2, IsPacket transmitter.packer.capacity.size packet := by
  obtain ⟨loaded, cleared, clears, short, equation⟩ := transmitter.applyUnit_cases
  have keeps := clears.keepsTo ready
  rw [equation]
  refine ⟨⟨keeps.terms, rfl, fun begun => ?_⟩, keeps.sent⟩
  exact ⟨(keeps.ready begun).header, short⟩

namespace Honours

variable {terms : Terms}

/-- No call sends a packet beyond what was settled before it. -/
theorem perform (honours : transmitter.Honours terms) (command : Command) :
    (transmitter.perform command).1.Honours (terms.settle command) ∧
      ∀ packet ∈ (transmitter.perform command).2, IsPacket terms.packetSize packet := by
  obtain ⟨rfl, capacity, ready⟩ := honours
  rw [← capacity]
  cases settles : command.settles with
  | false =>
    have keeps := keepsTo_perform settles ready
    rw [Terms.settle_of_quiet settles]
    exact ⟨⟨keeps.terms, by rw [keeps.capacity, capacity], keeps.ready⟩, keeps.sent⟩
  | true =>
    cases command with
    | setTransferUnit transferUnit =>
      exact honours_applyUnit { transmitter with transferUnit } ready
    | forceUnit forcedUnit =>
      exact honours_applyUnit { transmitter with forcedUnit } ready
    | _ => cases settles

/-- Every run honours the terms that its commands have settled. -/
theorem run (honours : transmitter.Honours terms) (commands : List Command) :
    (transmitter.run commands).1.Honours (commands.foldl Terms.settle terms) := by
  induction commands generalizing transmitter terms with
  | nil => exact honours
  | cons command later ih => exact ih (honours.perform command).1

end Honours

/-- Behind any calls the capacity is the size of packets that they have settled, and the packet
under way is within it. No call sends a packet beyond it, whatever that call settles, and neither do
any calls that settle nothing. Everything that is sent starts with a header. The capacity that a
packer is given is one that packets may have. -/
theorem packets_keep_size (commands : List Command) :
    let reached := (initial.run commands).1
    let size := (termsAfter commands).packetSize
    reached.terms = termsAfter commands ∧ reached.packer.capacity.size = size ∧
      reached.packer.length ≤ size ∧
      (∀ command, ∀ packet ∈ (reached.perform command).2, IsPacket size packet) ∧
      (∀ later : List Command, (∀ command ∈ later, command.settles = false) →
        (reached.run later).1.packer.capacity.size = size ∧
          ∀ packet ∈ (reached.run later).2, IsPacket size packet) ∧
      ∀ adjusted : Transmitter, ∃ loaded cleared packer, adjusted.Clears loaded cleared ∧
        loaded.packer.setCapacity (packetSize adjusted.effectiveUnit) = .ok packer ∧
        adjusted.applyUnit = ({ loaded with packer }, cleared) := by
  intro reached size
  have honours : reached.Honours (termsAfter commands) := honours_initial.run commands
  have capacity : reached.packer.capacity.size = size := honours.capacity
  refine ⟨honours.settled, capacity, capacity ▸ honours.ready.length_le,
    fun command => (honours.perform command).2, fun later quiet => ?_, fun adjusted => ?_⟩
  · have keeps := keepsTo_run quiet honours.ready
    rw [keeps.capacity, ← capacity]
    exact ⟨rfl, keeps.sent⟩
  · obtain ⟨loaded, cleared, clears, -, equation⟩ := adjusted.applyUnit_cases
    refine ⟨loaded, cleared, _, clears, ?_, equation⟩
    rw [packetSize_effectiveUnit, setCapacity_packetSize]

end Transmitter

end MidiTransport.Ble
