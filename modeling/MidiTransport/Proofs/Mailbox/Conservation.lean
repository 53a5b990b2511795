import MidiTransport.Mailbox

/-!
# What becomes of the entries of a mailbox

An entry that a mailbox accepts leaves it when it is its turn to be popped or when the mailbox is
cleared, whichever comes first, and waits until then. That is decided by the number of entries in
front of it and by the calls behind it alone (`fate`). The entries that leave a mailbox and those
that still wait show together the messages that it has accepted, so every message that is pushed is
accounted for (`Mailbox.accounts_of_run`).
-/

namespace MidiTransport

/-- A call of a mailbox. -/
inductive MailboxCall where
  | push (message : Message) (timestamp : UInt16)
  | pop
  | peek
  | clear
  deriving DecidableEq, Repr

/-- Does a call push a message? -/
def MailboxCall.isPush : MailboxCall → Bool
  | push _ _ => true
  | _ => false

/-- What a call of a mailbox brings about. -/
inductive MailboxOutcome where
  | pushed (accepted : Bool)
  | popped (found? : Option MailboxEntry)
  | peeked (found? : Option MailboxEntry)
  /-- These entries were discarded. -/
  | cleared (entries : List MailboxEntry)
  deriving DecidableEq, Repr

/-- What becomes of an entry. -/
inductive Fate where
  | popped
  | discarded
  | waiting
  deriving DecidableEq, Repr

/-- What becomes of an entry with so many entries in front of it. A pop takes one of those away
until there are none. -/
def fate (ahead : Nat) : List MailboxCall → Fate
  | [] => .waiting
  | .clear :: _ => .discarded
  | .pop :: later =>
    match ahead with
    | 0 => .popped
    | ahead + 1 => fate ahead later
  | _ :: later => fate ahead later

/-- The message that an entry shows, and the time of its arrival. -/
def MailboxEntry.content (entry : MailboxEntry) : Message × UInt16 :=
  (entry.message.asMessage, entry.timestamp)

/-- The messages with this fate, in order. -/
def contentsWith (wanted : Fate) (contents : List ((Message × UInt16) × Fate)) :
    List (Message × UInt16) :=
  (contents.filter (·.2 = wanted)).map (·.1)

namespace MailboxOutcome

/-- The entry that was popped. -/
def poppedEntries : MailboxOutcome → List MailboxEntry
  | popped found? => found?.toList
  | _ => []

/-- The entries that were discarded. -/
def discardedEntries : MailboxOutcome → List MailboxEntry
  | cleared entries => entries
  | _ => []

end MailboxOutcome

namespace Mailbox

/-- Carry out a call. -/
def perform (mailbox : Mailbox) : MailboxCall → Mailbox × MailboxOutcome
  | .push message timestamp =>
    ((mailbox.push message timestamp).1, .pushed (mailbox.push message timestamp).2)
  | .pop => (mailbox.pop.1, .popped mailbox.pop.2)
  | .peek => (mailbox, .peeked mailbox.peek)
  | .clear => (mailbox.clear, .cleared mailbox.entries)

/-- Carry out calls one after the other. -/
def run (mailbox : Mailbox) : List MailboxCall → Mailbox × List MailboxOutcome
  | [] => (mailbox, [])
  | call :: later =>
    let (next, outcome) := mailbox.perform call
    let (final, outcomes) := next.run later
    (final, outcome :: outcomes)

/-- What is given to a call, if it is a push that is accepted. -/
def added (mailbox : Mailbox) : MailboxCall → List (Message × UInt16)
  | .push message timestamp =>
    if (mailbox.push message timestamp).2 then [(message, timestamp)] else []
  | _ => []

/-- The messages that a mailbox accepts, as they are given to it, in order, each with what becomes
of it. -/
def accepted (mailbox : Mailbox) : List MailboxCall → List ((Message × UInt16) × Fate)
  | [] => []
  | call :: later =>
    (mailbox.added call).map (·, fate mailbox.length later) ++
      (mailbox.perform call).1.accepted later

/-- The messages that wait and those that will be accepted, each with what becomes of it. -/
def prospects (mailbox : Mailbox) (calls : List MailboxCall) :
    List ((Message × UInt16) × Fate) :=
  mailbox.entries.mapIdx (fun ahead entry => (entry.content, fate ahead calls)) ++
    mailbox.accepted calls

/-- The messages that leave a mailbox by a call, with what becomes of them. -/
def leaving (mailbox : Mailbox) : MailboxCall → List ((Message × UInt16) × Fate)
  | .pop => mailbox.entries.head?.toList.map (·.content, .popped)
  | .clear => mailbox.entries.map (·.content, .discarded)
  | _ => []

variable {mailbox : Mailbox} {call : MailboxCall} {message : Message} {timestamp : UInt16}

/-! ## One call -/

/-- A full mailbox refuses a message and counts it. -/
theorem push_of_full (full : mailbox.capacity ≤ mailbox.length) (message : Message)
    (timestamp : UInt16) :
    mailbox.push message timestamp =
      ({ mailbox with dropped := mailbox.dropped + 1 }, false) := by
  simp [push, isFull, full]

/-- A mailbox with room takes its own copy of a message in. -/
theorem push_of_room (room : mailbox.length < mailbox.capacity) (message : Message)
    (timestamp : UInt16) :
    mailbox.push message timestamp =
      ({ mailbox with entries := mailbox.entries ++ [⟨.ofMessage message, timestamp⟩] },
        true) := by
  simp [push, isFull, room]

/-- A message is refused exactly if the mailbox is full. -/
theorem push_eq_false_iff :
    (mailbox.push message timestamp).2 = false ↔ mailbox.capacity ≤ mailbox.length := by
  rcases Nat.lt_or_ge mailbox.length mailbox.capacity with room | full
  · rw [push_of_room room]
    simpa using room
  · rw [push_of_full full]
    simpa using full

theorem capacity_perform (mailbox : Mailbox) (call : MailboxCall) :
    (mailbox.perform call).1.capacity = mailbox.capacity := by
  cases call with
  | push message timestamp =>
    rw [perform, push]
    split <;> rfl
  | pop =>
    rw [perform, pop]
    split <;> rfl
  | _ => rfl

/-- No call takes a mailbox beyond its capacity. -/
theorem length_perform_le (bounded : mailbox.length ≤ mailbox.capacity) (call : MailboxCall) :
    (mailbox.perform call).1.length ≤ mailbox.capacity := by
  cases call with
  | push message timestamp =>
    rcases Nat.lt_or_ge mailbox.length mailbox.capacity with room | full
    · rw [perform, push_of_room room]
      simp only [length, List.length_append, List.length_singleton]
      exact room
    · rw [perform, push_of_full full]
      exact bounded
  | pop =>
    rw [perform, pop]
    split
    · exact bounded
    · rename_i entry later entries
      simp only [length, entries, List.length_cons] at bounded ⊢
      omega
  | peek => exact bounded
  | clear => exact Nat.zero_le _

/-- What does not leave a mailbox by a call has the same prospects as before. -/
theorem prospects_cons (mailbox : Mailbox) (call : MailboxCall) (later : List MailboxCall) :
    mailbox.prospects (call :: later) =
      mailbox.leaving call ++ (mailbox.perform call).1.prospects later := by
  cases call with
  | push message timestamp =>
    rcases Nat.lt_or_ge mailbox.length mailbox.capacity with room | full
    · simp [prospects, accepted, added, perform, leaving, push_of_room room, fate, length,
        MailboxEntry.content]
    · simp [prospects, accepted, added, perform, leaving, push_of_full full, fate]
  | pop =>
    obtain ⟨capacity, _ | ⟨entry, later⟩, dropped⟩ := mailbox
    · rfl
    · simp [prospects, accepted, added, perform, leaving, pop, fate]
  | peek => rfl
  | clear =>
    have all : mailbox.entries.mapIdx (fun _ entry => (entry.content, Fate.discarded)) =
        mailbox.entries.map (·.content, Fate.discarded) := List.ext_getElem (by simp) (by simp)
    simp [prospects, accepted, added, perform, leaving, clear, fate, all]

theorem contentsWith_append (wanted : Fate) (front back : List ((Message × UInt16) × Fate)) :
    contentsWith wanted (front ++ back) = contentsWith wanted front ++ contentsWith wanted back := by
  simp [contentsWith]

/-- Entries with one and the same fate. -/
theorem contentsWith_map (wanted fate : Fate) (entries : List MailboxEntry) :
    contentsWith wanted (entries.map (·.content, fate)) =
      if fate = wanted then entries.map (·.content) else [] := by
  induction entries with
  | nil => simp [contentsWith]
  | cons entry later ih =>
    have next := congrArg ((contentsWith wanted [(entry.content, fate)]) ++ ·) ih
    rw [← contentsWith_append] at next
    refine next.trans ?_
    by_cases same : fate = wanted <;> simp [contentsWith, same]

/-- What leaves a mailbox has been popped or discarded by the call. -/
theorem contentsWith_leaving (mailbox : Mailbox) (call : MailboxCall) :
    contentsWith .popped (mailbox.leaving call) =
        (mailbox.perform call).2.poppedEntries.map (·.content) ∧
      contentsWith .discarded (mailbox.leaving call) =
        (mailbox.perform call).2.discardedEntries.map (·.content) ∧
      contentsWith .waiting (mailbox.leaving call) = [] := by
  cases call with
  | push message timestamp => exact ⟨rfl, rfl, rfl⟩
  | pop =>
    obtain ⟨capacity, _ | ⟨entry, later⟩, dropped⟩ := mailbox <;> exact ⟨rfl, rfl, rfl⟩
  | peek => exact ⟨rfl, rfl, rfl⟩
  | clear =>
    simp [leaving, contentsWith_map, perform, MailboxOutcome.poppedEntries,
      MailboxOutcome.discardedEntries]

/-! ## Runs -/

/-- Every run keeps the capacity. -/
theorem capacity_run (mailbox : Mailbox) (calls : List MailboxCall) :
    (mailbox.run calls).1.capacity = mailbox.capacity := by
  induction calls generalizing mailbox with
  | nil => rfl
  | cons call later ih => exact (ih _).trans (mailbox.capacity_perform call)

/-- No run takes a mailbox beyond its capacity. -/
theorem length_run_le (bounded : mailbox.length ≤ mailbox.capacity) (calls : List MailboxCall) :
    (mailbox.run calls).1.length ≤ mailbox.capacity := by
  induction calls generalizing mailbox with
  | nil => exact bounded
  | cons call later ih =>
    have next := mailbox.length_perform_le bounded call
    rw [← mailbox.capacity_perform call] at next ⊢
    exact ih next

/-- All prospects come true. -/
theorem contentsWith_prospects (mailbox : Mailbox) (calls : List MailboxCall) :
    contentsWith .popped (mailbox.prospects calls) =
        ((mailbox.run calls).2.flatMap (·.poppedEntries)).map (·.content) ∧
      contentsWith .discarded (mailbox.prospects calls) =
        ((mailbox.run calls).2.flatMap (·.discardedEntries)).map (·.content) ∧
      contentsWith .waiting (mailbox.prospects calls) =
        (mailbox.run calls).1.entries.map (·.content) := by
  induction calls generalizing mailbox with
  | nil =>
    have all : mailbox.prospects [] = mailbox.entries.map (·.content, Fate.waiting) :=
      List.ext_getElem (by simp [prospects, accepted]) (by simp [prospects, accepted, fate])
    simp [all, contentsWith_map, run]
  | cons call later ih =>
    obtain ⟨popped, discarded, waiting⟩ := mailbox.contentsWith_leaving call
    obtain ⟨laterPopped, laterDiscarded, laterWaiting⟩ := ih (mailbox.perform call).1
    rw [prospects_cons, contentsWith_append, contentsWith_append, contentsWith_append, popped,
      discarded, waiting, laterPopped, laterDiscarded, laterWaiting, ← List.map_append,
      ← List.map_append]
    exact ⟨rfl, rfl, rfl⟩

/-- Every message has one fate. -/
theorem length_contentsWith (contents : List ((Message × UInt16) × Fate)) :
    (contentsWith .popped contents).length + (contentsWith .discarded contents).length +
      (contentsWith .waiting contents).length = contents.length := by
  induction contents with
  | nil => rfl
  | cons content later ih =>
    obtain ⟨content, _ | _ | _⟩ := content <;>
    · simp only [contentsWith, List.length_map] at ih
      simp [contentsWith]
      omega

/-- A push is either accepted or refused. -/
theorem pushes_eq (mailbox : Mailbox) (calls : List MailboxCall) :
    calls.countP (·.isPush) =
      (mailbox.accepted calls).length + (mailbox.run calls).2.count (.pushed false) := by
  induction calls generalizing mailbox with
  | nil => rfl
  | cons call later ih =>
    have others := ih (mailbox.perform call).1
    have here : (if call.isPush then 1 else 0) =
        (mailbox.added call).length +
          if (mailbox.perform call).2 = .pushed false then 1 else 0 := by
      cases call with
      | push message timestamp =>
        cases room : (mailbox.push message timestamp).2 <;>
          simp [MailboxCall.isPush, added, perform, room]
      | _ => simp [MailboxCall.isPush, added, perform]
    rw [run, accepted, List.countP_cons, List.count_cons, List.length_append, List.length_map]
    simp only [beq_iff_eq]
    omega

/-- Only a refused push is counted, and no call takes back what has been counted. -/
theorem dropped_perform (mailbox : Mailbox) (call : MailboxCall) :
    (mailbox.perform call).1.dropped =
      mailbox.dropped + if (mailbox.perform call).2 = .pushed false then 1 else 0 := by
  cases call with
  | push message timestamp =>
    rcases Nat.lt_or_ge mailbox.length mailbox.capacity with room | full
    · simp [perform, push_of_room room]
    · simp [perform, push_of_full full]
  | pop =>
    rw [perform, pop]
    split <;> simp
  | peek => simp [perform]
  | clear => simp [perform, clear]

/-- The counter moves on by one for each message that is refused. -/
theorem dropped_run (mailbox : Mailbox) (calls : List MailboxCall) :
    (mailbox.run calls).1.dropped =
      mailbox.dropped + UInt64.ofNat ((mailbox.run calls).2.count (.pushed false)) := by
  induction calls generalizing mailbox with
  | nil => exact (UInt64.add_zero _).symm
  | cons call later ih =>
    have here : UInt64.ofNat (if (mailbox.perform call).2 = .pushed false then 1 else 0) =
        if (mailbox.perform call).2 = .pushed false then 1 else 0 := by
      split <;> rfl
    rw [run, List.count_cons, UInt64.ofNat_add]
    simp only [beq_iff_eq]
    rw [ih, here, dropped_perform, UInt64.add_assoc, UInt64.add_comm (UInt64.ofNat _)]

/-- Behind any calls a mailbox is within its capacity, and a push is refused exactly if it is full;
that leaves the entries alone and is counted. What was popped, what was discarded and what waits
shows the accepted messages with that fate, as they were given and in the order of their pushes, so
every push is accounted for. The refused pushes of all calls are counted, up to the size of the
counter. -/
theorem accounts_of_run (capacity : Nat) (calls : List MailboxCall) :
    let reached := ((empty capacity).run calls).1
    let outcomes := ((empty capacity).run calls).2
    let accepted := (empty capacity).accepted calls
    let popped := outcomes.flatMap (·.poppedEntries)
    let discarded := outcomes.flatMap (·.discardedEntries)
    let refused := outcomes.count (.pushed false)
    reached.length ≤ capacity ∧
      (∀ message timestamp,
        ((reached.push message timestamp).2 = false ↔ reached.length = capacity) ∧
          ((reached.push message timestamp).2 = false → (reached.push message timestamp).1 =
            { reached with dropped := reached.dropped + 1 })) ∧
      popped.map (·.content) = contentsWith .popped accepted ∧
      discarded.map (·.content) = contentsWith .discarded accepted ∧
      reached.entries.map (·.content) = contentsWith .waiting accepted ∧
      calls.countP (·.isPush) = popped.length + discarded.length + reached.length + refused ∧
      reached.dropped = UInt64.ofNat refused ∧
      (refused < UInt64.size → reached.dropped.toNat = refused) := by
  intro reached outcomes accepted popped discarded refused
  have size : reached.capacity = capacity := (empty capacity).capacity_run calls
  have bounded : reached.length ≤ capacity := length_run_le (Nat.zero_le _) calls
  have counted : reached.dropped = UInt64.ofNat refused :=
    ((empty capacity).dropped_run calls).trans (UInt64.zero_add _)
  -- Without entries that wait, the prospects are those of the accepted messages alone.
  obtain ⟨wasPopped, wasDiscarded, waits⟩ :
      contentsWith .popped accepted = popped.map (·.content) ∧
        contentsWith .discarded accepted = discarded.map (·.content) ∧
        contentsWith .waiting accepted = reached.entries.map (·.content) :=
    (empty capacity).contentsWith_prospects calls
  refine ⟨bounded, fun message timestamp => ⟨?_, fun refused => ?_⟩, wasPopped.symm,
    wasDiscarded.symm, waits.symm, ?_, counted, fun small => ?_⟩
  · rw [push_eq_false_iff, size]
    omega
  · rw [push_of_full (push_eq_false_iff.mp refused)]
  · have pushes := (empty capacity).pushes_eq calls
    have fates := length_contentsWith accepted
    rw [wasPopped, wasDiscarded, waits, List.length_map, List.length_map, List.length_map] at fates
    rw [pushes, length, fates]
  · rw [counted, UInt64.toNat_ofNat', Nat.mod_eq_of_lt small]

/-- Of four messages one is popped, one is discarded and two wait, and two are dropped. -/
example :
    let calls : List MailboxCall :=
      [.push (.realTime ⟨0xF8, .first⟩) 1, .push (.realTime ⟨0xFA, .first⟩) 2,
        .push (.realTime ⟨0xFB, .first⟩) 3, .pop, .peek, .clear, .pop,
        .push (.sysEx ⟨[0xF0, 0x01], .first, true, false⟩) 4,
        .push (.realTime ⟨0xFC, .first⟩) 5, .push (.realTime ⟨0xFE, .first⟩) 6]
    ((empty 2).accepted calls).map (fun (content, fate) => (content.2, fate)) =
        [(1, .popped), (2, .discarded), (4, .waiting), (5, .waiting)] ∧
      ((empty 2).run calls).1.dropped = 2 := by
  decide +kernel

end Mailbox

end MidiTransport
