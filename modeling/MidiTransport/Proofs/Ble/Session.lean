import MidiTransport.Ble.Transmitter

/-!
# Runs of a transmitter

A transmitter is driven by calls in any order, of which only some send a message. A run
answers with all packets that were sent on the way.
-/

namespace MidiTransport.Ble

/-- A call of a transmitter. -/
inductive Command where
  /-- Send a message with this time at this instant. -/
  | send (message : Message) (time now : Nat)
  | poll (now : Nat)
  | flush
  | setTimeout (timeout : Nat)
  | setTransferUnit (transferUnit : Nat)
  | forceUnit (forcedUnit : Option Nat)
  deriving DecidableEq, Repr

/-- The message that a call sends. -/
def Command.message? : Command → Option Message
  | send message _ _ => some message
  | _ => none

/-- The messages that calls send, in order. -/
def sentMessages (commands : List Command) : List Message := commands.filterMap (·.message?)

namespace Transmitter

/-- Carry out a call. -/
def perform (transmitter : Transmitter) : Command → Transmitter × List (List UInt8)
  | .send message time now => transmitter.send message time now
  | .poll now => transmitter.poll now
  | .flush => transmitter.flush
  | .setTimeout timeout => (transmitter.setTimeout timeout, [])
  | .setTransferUnit transferUnit => transmitter.setTransferUnit transferUnit
  | .forceUnit forcedUnit => transmitter.forceUnit forcedUnit

/-- Carry out calls one after the other. -/
def run (transmitter : Transmitter) : List Command → Transmitter × List (List UInt8)
  | [] => (transmitter, [])
  | command :: later =>
    let (next, sent) := transmitter.perform command
    let (final, more) := next.run later
    (final, sent ++ more)

theorem run_cons (transmitter : Transmitter) (command : Command) (later : List Command) :
    transmitter.run (command :: later) =
      (((transmitter.perform command).1.run later).1,
        (transmitter.perform command).2 ++ ((transmitter.perform command).1.run later).2) :=
  rfl

/-! ## What calls without a message preserve -/

/-- The property of a transmitter and the packets that it has sent does not depend on anything but
the packet under way, and sending that packet preserves it. -/
structure Steady (Holds : Transmitter → List (List UInt8) → Prop) : Prop where
  of_packer {transmitter other : Transmitter} {packets : List (List UInt8)}
    (holds : Holds transmitter packets)
    (same : { other.packer with capacity := transmitter.packer.capacity } = transmitter.packer) :
    Holds other packets
  flush {transmitter : Transmitter} {packets : List (List UInt8)}
    (holds : Holds transmitter packets) :
    Holds transmitter.flush.1 (packets ++ transmitter.flush.2)

namespace Steady

variable {Holds : Transmitter → List (List UInt8) → Prop} {transmitter : Transmitter}
  {packets : List (List UInt8)}

/-- What a flush preserves is preserved whether or not it happens. -/
theorem flush_if (steady : Steady Holds) (holds : Holds transmitter packets) (flushes : Prop)
    [Decidable flushes] :
    Holds (if flushes then transmitter.flush else (transmitter, [])).1
      (packets ++ (if flushes then transmitter.flush else (transmitter, [])).2) := by
  by_cases flushed : flushes
  · rw [if_pos flushed]
    exact steady.flush holds
  · rw [if_neg flushed, List.append_nil]
    exact holds

/-- A new unit flushes at most, and changes the capacity. -/
theorem applyUnit (steady : Steady Holds) (holds : Holds transmitter packets) :
    Holds transmitter.applyUnit.1 (packets ++ transmitter.applyUnit.2) := by
  unfold Transmitter.applyUnit
  have ready := steady.flush_if holds
    (packetSize transmitter.effectiveUnit < transmitter.packer.length)
  dsimp only
  split
  · rename_i packer equation
    unfold Packer.setCapacity at equation
    split at equation
    · cases equation
      exact steady.of_packer ready rfl
    · cases equation
  · exact ready

/-- A call that sends no message flushes at most. -/
theorem perform_quiet {command : Command} (steady : Steady Holds)
    (holds : Holds transmitter packets) (quiet : command.message? = none) :
    Holds (transmitter.perform command).1 (packets ++ (transmitter.perform command).2) := by
  have unchanged {other : Transmitter} (same : other.packer = transmitter.packer) :
      Holds other (packets ++ []) := by
    rw [List.append_nil]
    exact steady.of_packer holds (by rw [same])
  cases command with
  | send message time now => cases quiet
  | flush => exact steady.flush holds
  | poll now =>
    simp only [perform, Transmitter.poll]
    split
    · exact unchanged rfl
    · exact steady.flush_if holds _
  | setTimeout timeout => exact unchanged rfl
  | setTransferUnit transferUnit =>
    have set : Holds { transmitter with transferUnit } packets := steady.of_packer holds rfl
    exact steady.applyUnit set
  | forceUnit forcedUnit =>
    have set : Holds { transmitter with forcedUnit } packets := steady.of_packer holds rfl
    exact steady.applyUnit set

end Steady

end Transmitter

/-- The packets that calls bring about on a link that starts with this transfer unit, if all
is flushed in the end. -/
def packetsOfRun (transferUnit : Nat) (commands : List Command) : List (List UInt8) :=
  let (ready, cleared) := Transmitter.initial.setTransferUnit transferUnit
  let (loaded, sent) := ready.run commands
  cleared ++ sent ++ loaded.flush.2

end MidiTransport.Ble
