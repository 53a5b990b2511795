import MidiTransport.Message.Owned

/-!
# A bounded mailbox for messages

A mailbox hands messages over in the order of their arrival. It keeps copies, as the
bytes of a message do not stay with its sender. It never waits and never overwrites: a
message that finds it full is dropped and counted.
-/

namespace MidiTransport

/-- A copy of a message with the time of its arrival. -/
structure MailboxEntry where
  message : OwnedMessage
  /-- The time on a wireless link, 0 on any other. -/
  timestamp : UInt16
  deriving DecidableEq, Repr

structure Mailbox where
  capacity : Nat
  /-- The waiting entries, the oldest first. -/
  entries : List MailboxEntry
  /-- The number of messages that found the mailbox full, modulo the size of the counter. -/
  dropped : UInt64
  deriving DecidableEq, Repr

namespace Mailbox

/-- An empty mailbox. -/
def empty (capacity : Nat) : Mailbox := ⟨capacity, [], 0⟩

def length (mailbox : Mailbox) : Nat := mailbox.entries.length

def isEmpty (mailbox : Mailbox) : Bool := mailbox.entries.isEmpty

def isFull (mailbox : Mailbox) : Bool := mailbox.capacity ≤ mailbox.length

/-- Add a copy of a message behind all others. The answer tells whether there was room. -/
def push (mailbox : Mailbox) (message : Message) (timestamp : UInt16) : Mailbox × Bool :=
  if mailbox.isFull then ({ mailbox with dropped := mailbox.dropped + 1 }, false)
  else
    ({ mailbox with entries := mailbox.entries ++ [⟨.ofMessage message, timestamp⟩] }, true)

/-- Take the oldest entry. -/
def pop (mailbox : Mailbox) : Mailbox × Option MailboxEntry :=
  match mailbox.entries with
  | [] => (mailbox, none)
  | entry :: later => ({ mailbox with entries := later }, some entry)

/-- The oldest entry, which stays where it is. -/
def peek (mailbox : Mailbox) : Option MailboxEntry := mailbox.entries.head?

/-- Discard all waiting entries. -/
def clear (mailbox : Mailbox) : Mailbox := { mailbox with entries := [] }

end Mailbox

end MidiTransport
