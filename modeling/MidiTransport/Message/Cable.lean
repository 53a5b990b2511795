/-!
Cables and channels: the two sixteenfold addresses of a message.
-/

namespace MidiTransport

/-- The number of cables on one USB-MIDI endpoint. -/
def Cable.count : Nat := 16

/-- The number of channels on one cable. -/
def Channel.count : Nat := 16

/-- A virtual cable, counted from 0. USB-MIDI runs sixteen of them over a single
endpoint, every other transport has only the first. -/
structure Cable where
  index : Fin Cable.count
  deriving DecidableEq, Repr

/-- A MIDI channel, counted from 0. -/
structure Channel where
  index : Fin Channel.count
  deriving DecidableEq, Repr

namespace Cable

/-- The first cable. -/
def first : Cable := ⟨0, by decide⟩

instance : Inhabited Cable := ⟨first⟩

/-- The cable with this index, if there is one. -/
def ofIndex? (index : Nat) : Option Cable :=
  if bound : index < count then some ⟨index, bound⟩ else none

/-- The cable in the lower nibble of a byte. -/
def ofNibble (byte : UInt8) : Cable :=
  ⟨byte.toNat % count, Nat.mod_lt _ (by decide)⟩

/-- The number printed on a device, counted from 1. -/
def number (cable : Cable) : Nat := cable.index.val + 1

/-- The cable's display text. -/
def display (cable : Cable) : String := s!"cable {cable.number}"

end Cable

namespace Channel

/-- The first channel. -/
def first : Channel := ⟨0, by decide⟩

instance : Inhabited Channel := ⟨first⟩

/-- The channel with this index, if there is one. -/
def ofIndex? (index : Nat) : Option Channel :=
  if bound : index < count then some ⟨index, bound⟩ else none

/-- The channel in the lower nibble of a byte. -/
def ofNibble (byte : UInt8) : Channel :=
  ⟨byte.toNat % count, Nat.mod_lt _ (by decide)⟩

/-- The channel's display text, counted from 1. -/
def display (channel : Channel) : String := s!"channel {channel.index.val + 1}"

end Channel

end MidiTransport
