import MidiTransport.Ble.Packer

/-!
# Sending messages over a BLE-MIDI link

A transmitter collects messages in a packet. It sends the packet when the next message
does not fit and when the packet has been waiting for too long, so a message never
waits longer than the timeout if the transmitter is polled. The length of packets
follows from the smallest transfer unit of all clients.

Every operation answers with the transmitter behind it and the packets that it sent, in
order. Instants and the timeout are counted in microseconds. Instants may go backwards:
no time has passed then.
-/

namespace MidiTransport.Ble

/-- The bytes of a transfer unit that the transfer itself takes. -/
def transferOverhead : Nat := 3

/-- The transfer unit that every link has, in bytes. -/
def defaultTransferUnit : Nat := 23

/-- How long a packet waits for more messages, in microseconds. -/
def defaultTimeout : Nat := 10000

/-- A transmitter with the packet that it collects. -/
structure Transmitter where
  packer : Packer
  /-- How long a packet waits. -/
  timeout : Nat
  /-- When the packet was begun, if there is one. -/
  started : Option Nat
  /-- The smallest transfer unit of all clients. -/
  transferUnit : Nat
  /-- An upper limit for the transfer unit. -/
  forcedUnit : Option Nat
  deriving DecidableEq, Repr

namespace Transmitter

/-- The length of packets that a transfer unit carries, within the limits of all
packets. -/
def packetSize (transferUnit : Nat) : Nat :=
  max Capacity.least (min (transferUnit - transferOverhead) Capacity.greatest)

/-- Send the packet, if there is one. -/
def flush (transmitter : Transmitter) : Transmitter × List (List UInt8) :=
  if transmitter.packer.isEmpty then ({ transmitter with started := none }, [])
  else
    ({ transmitter with started := none, packer := transmitter.packer.reset },
      [transmitter.packer.bytes])

/-- The transfer unit that counts. -/
def effectiveUnit (transmitter : Transmitter) : Nat :=
  match transmitter.forcedUnit with
  | none => transmitter.transferUnit
  | some forced => min forced transmitter.transferUnit

/-- Let the capacity follow the transfer unit. A packet that has become too long is
sent. -/
def applyUnit (transmitter : Transmitter) : Transmitter × List (List UInt8) :=
  let size := packetSize transmitter.effectiveUnit
  let (next, sent) :=
    if size < transmitter.packer.length then transmitter.flush else (transmitter, [])
  match next.packer.setCapacity size with
  | .ok packer => ({ next with packer }, sent)
  | .error _ => (next, sent)

/-- A transmitter that has not sent anything. -/
def initial : Transmitter :=
  (applyUnit ⟨.initial .default, defaultTimeout, none, defaultTransferUnit, none⟩).1

/-- Set the smallest transfer unit of all clients. -/
def setTransferUnit (transmitter : Transmitter) (transferUnit : Nat) :
    Transmitter × List (List UInt8) :=
  { transmitter with transferUnit }.applyUnit

/-- Set or lift an upper limit for the transfer unit. -/
def forceUnit (transmitter : Transmitter) (forcedUnit : Option Nat) :
    Transmitter × List (List UInt8) :=
  { transmitter with forcedUnit }.applyUnit

/-- Set how long a packet waits. -/
def setTimeout (transmitter : Transmitter) (timeout : Nat) : Transmitter :=
  { transmitter with timeout }

/-- Note when the packet was begun, unless that is known. -/
def start (transmitter : Transmitter) (now : Nat) : Transmitter :=
  { transmitter with started := some (transmitter.started.getD now) }

@[simp] theorem bytes_flush (transmitter : Transmitter) :
    transmitter.flush.1.packer.bytes = [] := by
  unfold flush
  split
  · rename_i empty
    simpa [Packer.isEmpty] using empty
  · rfl

/-- Send as many packets as the rest of a system exclusive message fills. The last
part stays in the packet under way. -/
def sendRest (transmitter : Transmitter) (rest : List UInt8) (time now : Nat) :
    Transmitter × List (List UInt8) :=
  if _more : rest = [] then (transmitter, [])
  else
    let continued := transmitter.flush.1.packer.continueSysEx rest time
    let (final, sent) :=
      ({ transmitter.flush.1 with packer := continued.1 }.start now).sendRest continued.2 time now
    (final, transmitter.flush.2 ++ sent)
termination_by rest.length
decreasing_by exact Packer.length_continueSysEx_lt transmitter.bytes_flush _more

/-- Send a system exclusive message or a piece of one. A piece that is not the first
starts a new packet. Data that finds no place in an empty packet is dropped. -/
def sendSysEx (transmitter : Transmitter) (piece : SysExPiece) (time now : Nat) :
    Transmitter × List (List UInt8) :=
  let (ready, cleared) :=
    if !piece.first && !transmitter.packer.isEmpty then transmitter.flush else (transmitter, [])
  match ready.packer.addSysEx piece.data time with
  | ((packer, rest), true) =>
    let (final, sent) := ({ ready with packer }.start now).sendRest rest time now
    (final, cleared ++ sent)
  | ((packer, data), false) =>
    let (empty, flushed) := { ready with packer }.flush
    match empty.packer.addSysEx data time with
    | ((packer, rest), true) =>
      let (final, sent) := ({ empty with packer }.start now).sendRest rest time now
      (final, cleared ++ flushed ++ sent)
    | ((packer, _), false) => ({ empty with packer }, cleared ++ flushed)

/-- Send a message that goes into one packet. A message that does not fit into an
empty packet is dropped. -/
def sendWhole (transmitter : Transmitter) (message : Message) (time now : Nat) :
    Transmitter × List (List UInt8) :=
  match transmitter.packer.addMessage message time with
  | (packer, true) => ({ transmitter with packer }.start now, [])
  | (packer, false) =>
    let (empty, flushed) := { transmitter with packer }.flush
    match empty.packer.addMessage message time with
    | (packer, true) => ({ empty with packer }.start now, flushed)
    | (packer, false) => ({ empty with packer }, flushed)

/-- Send a message. -/
def send (transmitter : Transmitter) (message : Message) (time now : Nat) :
    Transmitter × List (List UInt8) :=
  match message with
  | .sysEx piece => transmitter.sendSysEx piece time now
  | message => transmitter.sendWhole message time now

/-- Send the packet if it has been waiting for too long. -/
def poll (transmitter : Transmitter) (now : Nat) : Transmitter × List (List UInt8) :=
  match transmitter.started with
  | none => (transmitter, [])
  | some instant =>
    if transmitter.timeout ≤ now - instant then transmitter.flush else (transmitter, [])

/-- Send several messages, each with its time, at one instant. -/
def sendAll (transmitter : Transmitter) (messages : List (Message × Nat)) (now : Nat) :
    Transmitter × List (List UInt8) :=
  match messages with
  | [] => (transmitter, [])
  | (message, time) :: later =>
    let (next, sent) := transmitter.send message time now
    let (final, more) := next.sendAll later now
    (final, sent ++ more)

end Transmitter

/-- The packets that carry messages over a link with this transfer unit. -/
def packetsOf (transferUnit : Nat) (messages : List (Message × Nat)) : List (List UInt8) :=
  let (ready, cleared) := Transmitter.initial.setTransferUnit transferUnit
  let (loaded, sent) := ready.sendAll messages 0
  cleared ++ sent ++ loaded.flush.2

end MidiTransport.Ble
