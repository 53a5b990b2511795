import MidiTransport.Ble.Timestamp
import MidiTransport.Message.Basic

/-!
# Packing messages into a BLE-MIDI packet

A packet starts with a header byte. Every message in it is preceded by a time byte,
except that a channel message that repeats the status of the channel message before
it leaves out its status byte, and its time byte too if that has not changed.

All `add` functions answer whether they have added their message. They look for room
first, and a packer that refuses is unchanged (`addMessage_refused`): then the packet is
to be sent before the message is tried again. A system exclusive message may also be
added in parts: what did not fit is handed back for the next packet.
-/

namespace MidiTransport.Ble

/-- A limit for the length of packets. The smallest packet has room for its header
and any message that is not system exclusive, the largest is what every link carries. -/
structure Capacity where
  size : Nat
  least_le_size : 5 ≤ size
  size_le_greatest : size ≤ 20
  deriving DecidableEq, Repr

/-- A length that no packet may have. -/
structure CapacityError where
  size : Nat
  deriving DecidableEq, Repr

namespace Capacity

def least : Nat := 5

def greatest : Nat := 20

/-- The greatest capacity, which a new packer has. -/
def default : Capacity := ⟨greatest, by decide, by decide⟩

/-- The capacity of this size, if it is one. -/
def ofSize (size : Nat) : Except CapacityError Capacity :=
  if within : least ≤ size ∧ size ≤ greatest then .ok ⟨size, within.1, within.2⟩
  else .error ⟨size⟩

end Capacity

/-- What is wrong with a capacity. -/
def CapacityError.message (error : CapacityError) : String :=
  s!"invalid BLE-MIDI packet capacity {error.size}, " ++
    s!"must be within [{Capacity.least}, {Capacity.greatest}]"

/-- A packet under construction. -/
structure Packer where
  /-- The packet so far. -/
  bytes : List UInt8
  capacity : Capacity
  /-- The status of the last channel message in the packet that the next one may
  repeat, 0 if there is none. -/
  runningStatus : UInt8
  /-- The time byte of the last channel message, 0 if the next one needs its own. -/
  runningTime : UInt8
  /-- The packet ends within a system exclusive message. -/
  sysExOpen : Bool
  deriving DecidableEq, Repr

namespace Packer

/-- A packer with an empty packet. -/
def initial (capacity : Capacity) : Packer := ⟨[], capacity, 0, 0, false⟩

def isEmpty (packer : Packer) : Bool := packer.bytes.isEmpty

def length (packer : Packer) : Nat := packer.bytes.length

/-- Change the capacity. A packet that is already longer is kept, and only cannot be
added to any more. -/
def setCapacity (packer : Packer) (size : Nat) : Except CapacityError Packer :=
  match Capacity.ofSize size with
  | .ok capacity => .ok { packer with capacity }
  | .error error => .error error

/-- Start a new packet. The running time stays, but is of no use without a running
status. -/
def reset (packer : Packer) : Packer :=
  { packer with bytes := [], runningStatus := 0, sysExOpen := false }

/-- The number of bytes that can still be added. -/
def spaceLeft (packer : Packer) : Nat := packer.capacity.size - packer.length

/-- Can this many bytes still be added? -/
def fits (packer : Packer) (amount : Nat) : Bool := amount ≤ packer.spaceLeft

/-- The number of bytes that the header still needs. -/
def headerLength (packer : Packer) : Nat := if packer.isEmpty then 1 else 0

/-- The packet, with its header if it had none. -/
def opened (packer : Packer) (time : Nat) : List UInt8 :=
  if packer.isEmpty then [headerByte time] else packer.bytes

/-- Give the packet its header, if it has none. -/
def withHeader (packer : Packer) (time : Nat) : Packer :=
  { packer with bytes := packer.opened time }

/-- Write more bytes into the packet. -/
def write (packer : Packer) (bytes : List UInt8) : Packer :=
  { packer with bytes := packer.bytes ++ bytes }

/-- Add a channel message, as briefly as the message before it allows. -/
def addChannel (packer : Packer) (message : ChannelMessage) (time : Nat) : Packer × Bool :=
  let stamp := timeByte time
  let writesStatus := message.header != packer.runningStatus
  let writesTime := writesStatus || stamp != packer.runningTime
  let length := writesTime.toNat + writesStatus.toNat + message.dataBytes.length
  if !packer.fits (packer.headerLength + length) then (packer, false)
  else
    let begun := packer.withHeader time
    let stamped := if writesTime then begun.write [stamp] else begun
    let named := if writesStatus then stamped.write [message.header] else stamped
    ({ named.write message.dataBytes with
      runningStatus := message.header
      runningTime := stamp
      sysExOpen := false }, true)

/-- Add a real-time message. The message behind it needs a time byte of its own. -/
def addRealTime (packer : Packer) (message : RealTimeMessage) (time : Nat) : Packer × Bool :=
  if !packer.fits (packer.headerLength + 2) then (packer, false)
  else
    let begun := packer.withHeader time
    ({ begun.write [timeByte time, message.byte] with runningTime := 0 }, true)

/-- Add a system common message. It leaves the running status of the channel messages
alone, but the message behind it needs a time byte of its own. -/
def addCommon (packer : Packer) (message : CommonMessage) (time : Nat) : Packer × Bool :=
  if !packer.fits (packer.headerLength + 2 + message.dataBytes.length) then (packer, false)
  else
    let begun := packer.withHeader time
    let named := begun.write [timeByte time, message.header]
    ({ named.write message.dataBytes with runningTime := 0, sysExOpen := false }, true)

/-- Add as much as fits of the bytes that continue a system exclusive message. The
answer holds the bytes that were left out. An end byte needs room for a time byte of
its own. -/
def continueSysEx (packer : Packer) (data : List UInt8) (time : Nat) :
    Packer × List UInt8 :=
  let begun := { packer.withHeader time with sysExOpen := true }
  match data.getLast? with
  | none => (begun, data)
  | some last =>
    let front := data.dropLast
    let count := min front.length begun.spaceLeft
    let copied := begun.write (front.take count)
    if count < front.length then (copied, data.drop count)
    else if !copied.fits (if last = sysExEnd then 2 else 1) then (copied, data.drop count)
    else
      let stamped :=
        if last = sysExEnd then { copied.write [timeByte time] with sysExOpen := false }
        else copied
      (stamped.write [last], [])

/-- Add a system exclusive message or a piece of one, as far as it fits. A start byte
has a time byte of its own. Data without a start byte must continue what the packet
ends with, or stand at the start of the packet. The answer holds the bytes that were
left out. -/
def addSysEx (packer : Packer) (data : List UInt8) (time : Nat) :
    (Packer × List UInt8) × Bool :=
  if data.head? = some sysExStart then
    if !packer.fits (packer.headerLength + 2) then ((packer, data), false)
    else
      let silenced := { packer.withHeader time with runningStatus := 0 }
      let started := silenced.write [timeByte time, sysExStart]
      (started.continueSysEx data.tail time, true)
  else if !packer.isEmpty && !packer.sysExOpen then ((packer, data), false)
  else (packer.continueSysEx data time, true)

/-- Add any message that fits as a whole. A system exclusive message is tried on a copy
of the packer, which is dropped if something is left. -/
def addMessage (packer : Packer) (message : Message) (time : Nat) : Packer × Bool :=
  match message with
  | .channel message => packer.addChannel message time
  | .common message => packer.addCommon message time
  | .realTime message => packer.addRealTime message time
  | .sysEx piece =>
    let ((copy, left), added) := packer.addSysEx piece.data time
    if added && left.isEmpty then (copy, true) else (packer, false)

/-! ## What has been added -/

variable {packer next : Packer} {time : Nat}

/-- An addition that is refused or accepted as a whole. -/
theorem ite_eq_true_iff {Answer : Type} {refuses : Bool} {old new answer : Answer} :
    (if refuses then (old, false) else (new, true)) = (answer, true) ↔
      refuses = false ∧ new = answer := by
  cases refuses <;> simp

theorem ite_accepted_iff {Answer : Type} {refuses : Bool} {old new : Answer} :
    (if refuses then (old, false) else (new, true)).2 = true ↔ refuses = false := by
  cases refuses <;> simp

theorem ite_eq_false_iff {Answer : Type} {refuses : Bool} {old new answer : Answer} :
    (if refuses then (old, false) else (new, true)) = (answer, false) ↔
      refuses = true ∧ old = answer := by
  cases refuses <;> simp

/-- What is written in front of the data of a channel message. -/
def lead (packer : Packer) (header : UInt8) (time : Nat) : List UInt8 :=
  if header = packer.runningStatus then
    if timeByte time = packer.runningTime then [] else [timeByte time]
  else [timeByte time, header]

/-- A channel message is added if there is room for its lead and its data. -/
theorem addChannel_eq (packer : Packer) (message : ChannelMessage) (time : Nat) :
    packer.addChannel message time =
      if !packer.fits (packer.headerLength +
          (packer.lead message.header time ++ message.dataBytes).length) then
        (packer, false)
      else
        ({ packer with
          bytes := packer.opened time ++ (packer.lead message.header time ++ message.dataBytes)
          runningStatus := message.header
          runningTime := timeByte time
          sysExOpen := false }, true) := by
  unfold addChannel lead
  by_cases repeats : message.header = packer.runningStatus
  · by_cases early : timeByte time = packer.runningTime
    · simp [repeats, early, withHeader, write]
    · have late : (timeByte time != packer.runningTime) = true := by simpa using early
      simp [repeats, early, late, withHeader, write, Nat.add_comm]
  · have other : (message.header != packer.runningStatus) = true := by simpa using repeats
    have lengths : message.dataBytes.length + 1 + 1 = 1 + 1 + message.dataBytes.length := by omega
    simp [repeats, other, withHeader, write, lengths]

theorem addRealTime_eq (packer : Packer) (message : RealTimeMessage) (time : Nat) :
    packer.addRealTime message time =
      if !packer.fits (packer.headerLength + 2) then (packer, false)
      else
        ({ packer with
          bytes := packer.opened time ++ [timeByte time, message.byte]
          runningTime := 0 }, true) :=
  rfl

theorem addCommon_eq (packer : Packer) (message : CommonMessage) (time : Nat) :
    packer.addCommon message time =
      if !packer.fits (packer.headerLength + 2 + message.dataBytes.length) then (packer, false)
      else
        ({ packer with
          bytes := packer.opened time ++ timeByte time :: message.header :: message.dataBytes
          runningTime := 0
          sysExOpen := false }, true) := by
  simp [addCommon, withHeader, write]

/-- The last byte of a piece as it is written. An end byte has a time byte of its own. -/
def closing (last : UInt8) (time : Nat) : List UInt8 :=
  if last = sysExEnd then [timeByte time, last] else [last]

theorem length_closing (last : UInt8) (time : Nat) :
    (closing last time).length = if last = sysExEnd then 2 else 1 := by
  unfold closing
  split <;> rfl

theorem length_closing_le (last : UInt8) (time : Nat) : (closing last time).length ≤ 2 := by
  rw [length_closing]
  split <;> decide

theorem continueSysEx_nil (packer : Packer) (time : Nat) :
    packer.continueSysEx [] time =
      ({ packer with bytes := packer.opened time, sysExOpen := true }, []) :=
  rfl

/-- All bytes of a rest are added if they fit with the time byte that the last one may need. -/
theorem continueSysEx_concat (packer : Packer) (front : List UInt8) (last : UInt8) (time : Nat) :
    packer.continueSysEx (front ++ [last]) time =
      let room := packer.capacity.size - (packer.opened time).length
      let count := min front.length room
      if front.length + (closing last time).length ≤ room then
        ({ packer with
            bytes := packer.opened time ++ (front ++ closing last time)
            sysExOpen := last != sysExEnd }, [])
      else
        ({ packer with
            bytes := packer.opened time ++ front.take count
            sysExOpen := true }, (front ++ [last]).drop count) := by
  have positive : 0 < (closing last time).length := by
    rw [length_closing]
    split <;> decide
  unfold continueSysEx
  simp only [List.getLast?_concat, List.dropLast_concat, fits, spaceLeft, length, withHeader, write,
    List.length_append, List.length_take]
  generalize (packer.opened time).length = begun
  by_cases part : min front.length (packer.capacity.size - begun) < front.length
  · rw [if_pos part, if_neg (by omega)]
  · have all : min front.length (packer.capacity.size - begun) = front.length := by omega
    rw [if_neg part, all, List.take_length, Nat.min_self, ← length_closing last time]
    by_cases whole : front.length + (closing last time).length ≤ packer.capacity.size - begun
    · have space : (closing last time).length ≤
          packer.capacity.size - (begun + front.length) := by omega
      rw [if_pos whole, if_neg (by simpa using space)]
      by_cases ends : last = sysExEnd
      · simp [closing, ends]
      · simp [closing, ends]
    · have tight : ¬ (closing last time).length ≤
          packer.capacity.size - (begun + front.length) := by omega
      rw [if_neg whole, if_pos (by simpa using tight)]

theorem addSysEx_start (packer : Packer) (data : List UInt8) (time : Nat) :
    packer.addSysEx (sysExStart :: data) time =
      if !packer.fits (packer.headerLength + 2) then ((packer, sysExStart :: data), false)
      else
        (continueSysEx { packer with
          bytes := packer.opened time ++ [timeByte time, sysExStart]
          runningStatus := 0 } data time, true) := by
  rw [addSysEx, List.head?_cons, if_pos rfl]
  rfl

theorem addSysEx_rest {data : List UInt8} (goesOn : data.head? ≠ some sysExStart) :
    packer.addSysEx data time =
      if !packer.isEmpty && !packer.sysExOpen then ((packer, data), false)
      else (packer.continueSysEx data time, true) := by
  rw [addSysEx, if_neg goesOn]

/-- A new packet takes at least one byte of a system exclusive message. -/
theorem length_continueSysEx_lt {data : List UInt8} (empty : packer.bytes = [])
    (nonempty : data ≠ []) : (packer.continueSysEx data time).2.length < data.length := by
  obtain ⟨front, last, rfl⟩ := (List.eq_nil_or_concat data).resolve_left nonempty
  have wide := packer.capacity.least_le_size
  have begun : (packer.opened time).length = 1 := by simp [opened, isEmpty, empty]
  have short := length_closing_le last time
  rw [List.concat_eq_append, continueSysEx_concat, begun]
  dsimp only
  split
  · simp
  · simp only [List.length_drop, List.length_append, List.length_singleton]
    omega

/-! ## What has been refused -/

theorem addChannel_refused {message : ChannelMessage}
    (refused : packer.addChannel message time = (next, false)) : next = packer := by
  rw [addChannel_eq, ite_eq_false_iff] at refused
  exact refused.2.symm

theorem addCommon_refused {message : CommonMessage}
    (refused : packer.addCommon message time = (next, false)) : next = packer := by
  rw [addCommon, ite_eq_false_iff] at refused
  exact refused.2.symm

theorem addRealTime_refused {message : RealTimeMessage}
    (refused : packer.addRealTime message time = (next, false)) : next = packer := by
  rw [addRealTime, ite_eq_false_iff] at refused
  exact refused.2.symm

/-- Data that is refused is still to be added as a whole. -/
theorem addSysEx_refused {data left : List UInt8}
    (refused : packer.addSysEx data time = ((next, left), false)) :
    next = packer ∧ left = data := by
  unfold addSysEx at refused
  split at refused <;> rw [ite_eq_false_iff] at refused <;>
    exact ⟨(Prod.mk.inj refused.2).1.symm, (Prod.mk.inj refused.2).2.symm⟩

/-- A packer that refuses a message is unchanged. -/
theorem addMessage_refused {message : Message}
    (refused : packer.addMessage message time = (next, false)) : next = packer := by
  cases message with
  | channel message => exact addChannel_refused refused
  | common message => exact addCommon_refused refused
  | realTime message => exact addRealTime_refused refused
  | sysEx piece =>
    simp only [addMessage] at refused
    split at refused
    · cases refused
    · exact (Prod.mk.inj refused).1.symm

end Packer

end MidiTransport.Ble
