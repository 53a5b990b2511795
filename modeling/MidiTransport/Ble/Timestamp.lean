import MidiTransport.Message.Status

/-!
# Time on a BLE-MIDI link

Times are counted in milliseconds modulo 8192. A packet starts with the upper six of
these thirteen bits; the lower seven stand in front of the messages. A reader has
to find the upper bits of a message's time again: a lower part that falls behind the
one before it means that the upper part has moved on by one.
-/

namespace MidiTransport.Ble

/-- The largest time. Times wrap around behind it. -/
def timestampMask : Nat := 0x1FFF

/-- The number of different times. -/
def timestampPeriod : Nat := timestampMask + 1

/-- The first byte of a packet whose first message has this time. -/
def headerByte (time : Nat) : UInt8 := UInt8.ofNat (0x80 + time / 128 % 64)

/-- The byte in front of a message with this time. -/
def timeByte (time : Nat) : UInt8 := UInt8.ofNat (0x80 + time % 128)

/-- The time that a packet's first byte stands for, with its lower part still 0. -/
def headerTime (header : UInt8) : Nat := header.toNat % 64 * 128

/-- The first time that is not before `time` and has the lower part of a time byte. -/
def advanceTime (time : Nat) (byte : UInt8) : Nat :=
  let low := byte.toNat % 128
  let high := if low < time % 128 then time / 128 + 1 else time / 128
  (high * 128 + low) % timestampPeriod

theorem toNat_headerByte (time : Nat) : (headerByte time).toNat = 0x80 + time / 128 % 64 := by
  simp only [headerByte, UInt8.toNat_ofNat']
  omega

theorem toNat_timeByte (time : Nat) : (timeByte time).toNat = 0x80 + time % 128 := by
  simp only [timeByte, UInt8.toNat_ofNat']
  omega

/-- The bytes written for a time give it back, up to the period. -/
theorem headerTime_add_timeByte (time : Nat) :
    headerTime (headerByte time) + (timeByte time).toNat % 128 = time % timestampPeriod := by
  simp only [headerTime, toNat_headerByte, toNat_timeByte, timestampPeriod, timestampMask]
  omega

/-- A time less than 128 later is found again from its lower part. -/
theorem advanceTime_timeByte {time later : Nat}
    (close : (later + timestampPeriod - time % timestampPeriod) % timestampPeriod < 128) :
    advanceTime (time % timestampPeriod) (timeByte later) = later % timestampPeriod := by
  simp only [timestampPeriod, timestampMask] at close
  simp only [advanceTime, toNat_timeByte, timestampPeriod, timestampMask]
  split <;> omega

end MidiTransport.Ble
