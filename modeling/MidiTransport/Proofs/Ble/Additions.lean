import MidiTransport.Proofs.Ble.Packing

/-!
# What an addition writes

An addition to a packet is refused without a trace, or it appends to the packet. What it appends
comes in entries that are not divided: a whole message, or one byte of a system exclusive message
with the time byte that it may need (`Packer.pieceEntries`). A packer takes as many entries of a
system exclusive message as it has room for (`Packer.FillsUp`) and hands back the bytes of the
others, so nothing is written twice and nothing is left out (`Packer.attempt_allOrNothing`).
-/

namespace MidiTransport.Ble.Packer

/-! ## Entries of a system exclusive message -/

/-- How the bytes that continue a system exclusive message stand in a packet, one entry for each.
An end byte in the last place has a time byte in front of it. -/
def restEntries (time : Nat) : List UInt8 → List (List UInt8)
  | [] => []
  | [last] => [closing last time]
  | byte :: next :: rest => [byte] :: restEntries time (next :: rest)

/-- How the bytes of a piece stand in a packet. A start byte in the first place has a time byte in
front of it too. -/
def pieceEntries (time : Nat) (data : List UInt8) : List (List UInt8) :=
  if data.head? = some sysExStart then [timeByte time, sysExStart] :: restEntries time data.tail
  else restEntries time data

section Entries

variable {time count : Nat} {data front entry : List UInt8} {last : UInt8}

/-- Only the last byte of a piece is written with something in front of it. -/
theorem restEntries_concat (time : Nat) (front : List UInt8) (last : UInt8) :
    restEntries time (front ++ [last]) = front.map ([·]) ++ [closing last time] := by
  induction front with
  | nil => rfl
  | cons byte rest ih =>
    cases rest with
    | nil => rfl
    | cons next rest => exact congrArg ([byte] :: ·) ih

/-- Entries short of the last one are the bytes themselves. -/
theorem flatten_take_restEntries (time : Nat) (last : UInt8) (within : count ≤ front.length) :
    ((restEntries time (front ++ [last])).take count).flatten = front.take count := by
  rw [restEntries_concat, List.take_append_of_le_length (by simpa using within), ← List.map_take,
    ← List.flatMap_def, List.flatMap_singleton']

/-- All entries of a piece are its bytes, with a timestamp in front of a last end byte. -/
theorem flatten_restEntries (time : Nat) (front : List UInt8) (last : UInt8) :
    (restEntries time (front ++ [last])).flatten = front ++ closing last time := by
  rw [restEntries_concat, List.flatten_append, ← List.flatMap_def, List.flatMap_singleton',
    List.flatten_singleton]

@[simp] theorem length_restEntries (time : Nat) (data : List UInt8) :
    (restEntries time data).length = data.length := by
  rcases List.eq_nil_or_concat data with rfl | ⟨front, last, rfl⟩
  · rfl
  · rw [List.concat_eq_append, restEntries_concat]
    simp

@[simp] theorem length_pieceEntries (time : Nat) (data : List UInt8) :
    (pieceEntries time data).length = data.length := by
  unfold pieceEntries
  split
  · rename_i starts
    obtain ⟨rest, rfl⟩ := List.head?_eq_some_iff.mp starts
    simp
  · exact length_restEntries time data

/-- What is left of the entries are the entries of what is left. -/
theorem drop_restEntries (time count : Nat) (data : List UInt8) :
    (restEntries time data).drop count = restEntries time (data.drop count) := by
  induction count generalizing data with
  | zero => rfl
  | succ count ih =>
    match data with
    | [] => rfl
    | [_] => simp [restEntries]
    | _ :: next :: rest => exact ih (next :: rest)

theorem closing_ne_nil (last : UInt8) (time : Nat) : closing last time ≠ [] := by
  unfold closing
  split <;> simp

/-- An entry is a byte, with or without a timestamp. -/
theorem length_of_mem_restEntries (member : entry ∈ restEntries time data) :
    1 ≤ entry.length ∧ entry.length ≤ 2 := by
  rcases List.eq_nil_or_concat data with rfl | ⟨front, last, rfl⟩
  · cases member
  · rw [List.concat_eq_append, restEntries_concat, List.mem_append, List.mem_map,
      List.mem_singleton] at member
    rcases member with ⟨byte, -, rfl⟩ | rfl
    · exact ⟨Nat.le_refl 1, Nat.le_succ 1⟩
    · exact ⟨List.length_pos_iff.mpr (closing_ne_nil last time), length_closing_le last time⟩

/-- An entry is one byte or two. -/
theorem length_of_mem_pieceEntries (member : entry ∈ pieceEntries time data) :
    1 ≤ entry.length ∧ entry.length ≤ 2 := by
  unfold pieceEntries at member
  split at member
  · rcases List.mem_cons.mp member with rfl | later
    · exact ⟨Nat.le_succ 1, Nat.le_refl 2⟩
    · exact length_of_mem_restEntries later
  · exact length_of_mem_restEntries member

/-- All entries but the last one are single bytes. -/
theorem getElem?_restEntries (found : (restEntries time (front ++ [last]))[count]? = some entry) :
    count < front.length ∧ entry.length = 1 ∨ front.length ≤ count ∧ entry = closing last time := by
  rw [restEntries_concat, List.getElem?_append, List.length_map] at found
  split at found
  · rename_i inside
    rw [List.getElem?_map] at found
    obtain ⟨byte, -, rfl⟩ := Option.map_eq_some_iff.mp found
    exact .inl ⟨inside, rfl⟩
  · rename_i outside
    obtain rfl := List.mem_singleton.mp (List.mem_of_getElem? found)
    exact .inr ⟨Nat.le_of_not_lt outside, rfl⟩

/-- Each entry ends with the byte that it is for. -/
theorem getLast?_restEntries (time : Nat) (data : List UInt8) :
    (restEntries time data).map (·.getLast?) = data.map some := by
  rcases List.eq_nil_or_concat data with rfl | ⟨front, last, rfl⟩
  · rfl
  · have final : (closing last time).getLast? = some last := by
      unfold closing
      split <;> rfl
    rw [List.concat_eq_append, restEntries_concat]
    simp [final, Function.comp_def]

/-- Every byte of a piece ends its own entry, so the entries hold all bytes in order. -/
theorem getLast?_pieceEntries (time : Nat) (data : List UInt8) :
    (pieceEntries time data).map (·.getLast?) = data.map some := by
  unfold pieceEntries
  split
  · rename_i starts
    obtain ⟨rest, rfl⟩ := List.head?_eq_some_iff.mp starts
    exact congrArg (some sysExStart :: ·) (getLast?_restEntries time rest)
  · exact getLast?_restEntries time data

end Entries

/-! ## Filling up a packet -/

/-- The packer has taken as many of the entries as it has room for. -/
structure FillsUp (packer next : Packer) (time : Nat) (entries : List (List UInt8)) (count : Nat) :
    Prop where
  within : count ≤ entries.length
  bytes : next.bytes = packer.opened time ++ (entries.take count).flatten
  bounded : next.length ≤ max packer.capacity.size (packer.opened time).length
  full : ∀ entry ∈ entries[count]?, packer.capacity.size < next.length + entry.length
  capacity : next.capacity = packer.capacity

section FillsUp

variable {packer next : Packer} {time count : Nat} {entries : List (List UInt8)}
  {data left : List UInt8}

/-- The bytes that continue a system exclusive message fill up the packet, and the others are
handed back. -/
theorem continueSysEx_fillsUp (packer : Packer) (data : List UInt8) (time : Nat) :
    ∃ count, packer.FillsUp (packer.continueSysEx data time).1 time (restEntries time data) count ∧
      (packer.continueSysEx data time).2 = data.drop count := by
  rcases List.eq_nil_or_concat data with rfl | ⟨front, last, rfl⟩
  · refine ⟨0, ⟨Nat.le_refl 0, ?_, Nat.le_max_right _ _, ?_, rfl⟩, rfl⟩
    · simp [continueSysEx_nil]
    · simp [restEntries]
  · have entries := restEntries_concat time front last
    rw [List.concat_eq_append, continueSysEx_concat]
    dsimp only
    generalize room_def : packer.capacity.size - (packer.opened time).length = room
    split
    · rename_i whole
      refine ⟨(front ++ [last]).length, ⟨?_, ?_, ?_, ?_, rfl⟩, by simp⟩
      · exact Nat.le_of_eq (length_restEntries time _).symm
      · rw [← length_restEntries time, List.take_length, flatten_restEntries]
      · simp only [length, List.length_append]
        omega
      · simp [entries]
    · rename_i part
      have within := Nat.min_le_left front.length room
      refine ⟨min front.length room, ⟨?_, ?_, ?_, ?_, rfl⟩, rfl⟩
      · rw [length_restEntries, List.length_append]
        omega
      · rw [flatten_take_restEntries time last within]
      · simp only [length, List.length_append, List.length_take]
        omega
      · -- The packet is full, or only the last byte is left and needs a time byte too.
        intro entry found
        have next := getElem?_restEntries found
        simp only [length, List.length_append, List.length_take]
        rcases next with ⟨inside, single⟩ | ⟨outside, rfl⟩
        · omega
        · omega

/-- Opening a packet costs a header, unless it has one. -/
theorem length_opened (packer : Packer) (time : Nat) :
    (packer.opened time).length = packer.length + packer.headerLength := by
  unfold opened headerLength length isEmpty
  cases packer.bytes <;> rfl

/-- A packet needs a header exactly as long as it is empty. -/
theorem headerLength_cases (packer : Packer) :
    packer.headerLength = 0 ∨ packer.headerLength = 1 ∧ packer.length = 0 := by
  unfold headerLength length isEmpty
  cases packer.bytes <;> simp

/-- The number of bytes that a message may have behind the header. -/
def room (packer : Packer) : Nat := packer.spaceLeft - packer.headerLength

/-- The room is what the capacity leaves behind the header. -/
theorem room_eq (packer : Packer) (time : Nat) :
    packer.room = packer.capacity.size - (packer.opened time).length := by
  rw [room, spaceLeft, length_opened]
  omega

/-- Bytes fit together with a header if they fit in the room. -/
theorem fits_header_iff {amount : Nat} :
    packer.fits (packer.headerLength + amount) = true ↔ amount ≤ packer.room := by
  have wide := packer.capacity.least_le_size
  have header := packer.headerLength_cases
  rw [fits, decide_eq_true_eq, room, spaceLeft]
  omega

/-- A packer that has taken an entry goes on with the others. -/
theorem FillsUp.cons {taken : Packer} {entry : List UInt8}
    (fills : taken.FillsUp next time entries count)
    (bytes : taken.bytes = packer.opened time ++ entry)
    (capacity : taken.capacity = packer.capacity) (nonempty : entry ≠ [])
    (space : entry.length ≤ packer.room) :
    packer.FillsUp next time (entry :: entries) (count + 1) := by
  have begun : taken.opened time = packer.opened time ++ entry := by
    simp [opened, isEmpty, bytes, nonempty]
  have bounded := fills.bounded
  rw [begun, capacity, List.length_append] at bounded
  rw [room_eq packer time] at space
  refine ⟨Nat.succ_le_succ fills.within, ?_, ?_, ?_, fills.capacity.trans capacity⟩
  · rw [fills.bytes, begun, List.take_succ_cons, List.flatten_cons, List.append_assoc]
  · omega
  · rw [List.getElem?_cons_succ, ← capacity]
    exact fills.full

/-- A system exclusive message or a piece of one fills up the packet, and the bytes that it has no
room for continue it. -/
theorem addSysEx_fillsUp (added : packer.addSysEx data time = ((next, left), true)) :
    ∃ count, packer.FillsUp next time (pieceEntries time data) count ∧ left = data.drop count ∧
      restEntries time left = (pieceEntries time data).drop count := by
  by_cases starts : data.head? = some sysExStart
  · obtain ⟨rest, rfl⟩ := List.head?_eq_some_iff.mp starts
    have entries : pieceEntries time (sysExStart :: rest) =
        [timeByte time, sysExStart] :: restEntries time rest := if_pos rfl
    rw [addSysEx_start, ite_eq_true_iff, Bool.not_eq_false'] at added
    obtain ⟨space, filled⟩ := added
    obtain ⟨count, fills, behind⟩ := continueSysEx_fillsUp { packer with
      bytes := packer.opened time ++ [timeByte time, sysExStart]
      runningStatus := 0 } rest time
    rw [filled] at fills behind
    rw [entries]
    refine ⟨count + 1, fills.cons rfl rfl (List.cons_ne_nil _ _) (fits_header_iff.mp space), behind,
      ?_⟩
    rw [List.drop_succ_cons, drop_restEntries, ← behind]
  · have entries : pieceEntries time data = restEntries time data := if_neg starts
    rw [addSysEx_rest starts, ite_eq_true_iff] at added
    obtain ⟨-, filled⟩ := added
    obtain ⟨count, fills, behind⟩ := continueSysEx_fillsUp packer data time
    rw [filled] at fills behind
    rw [entries]
    exact ⟨count, fills, behind, by rw [drop_restEntries, ← behind]⟩

/-- All entries have been taken exactly if there is room for all of them. -/
theorem FillsUp.all_iff (fills : packer.FillsUp next time entries count)
    (some_ : ∀ entry ∈ entries, entry ≠ []) :
    count = entries.length ↔ entries.flatten.length ≤ packer.room := by
  obtain ⟨within, bytes, bounded, full, -⟩ := fills
  rw [room_eq packer time]
  simp only [length, bytes, List.length_append] at bounded full
  constructor
  · rintro rfl
    rw [List.take_length] at bounded
    omega
  · intro short
    refine Nat.le_antisymm within (Nat.le_of_not_lt fun more => ?_)
    have tight := full entries[count] (List.getElem?_eq_getElem more)
    have positive := List.length_pos_iff.mpr (some_ entries[count] (List.getElem_mem more))
    have split : entries.flatten =
        (entries.take count).flatten ++ entries[count] ++ (entries.drop (count + 1)).flatten := by
      rw [← List.flatten_concat, List.take_append_getElem, ← List.flatten_append,
        List.take_append_drop]
    rw [split, List.length_append, List.length_append] at short
    omega

end FillsUp

/-! ## Whole messages -/

/-- What is appended for a message that is added as a whole. -/
def written (packer : Packer) (time : Nat) : Message → List UInt8
  | .channel message => packer.lead message.header time ++ message.dataBytes
  | .common message => timeByte time :: message.header :: message.dataBytes
  | .realTime message => [timeByte time, message.byte]
  | .sysEx piece => (pieceEntries time piece.data).flatten

/-- Data may be added here: it starts a system exclusive message, or it goes on with the one that
the packet ends with, or the packet is new. -/
def Receives (packer : Packer) (data : List UInt8) : Prop :=
  data.head? = some sysExStart ∨ packer.bytes = [] ∨ packer.sysExOpen = true

section Whole

variable {packer next : Packer} {time : Nat} {message : Message} {data : List UInt8}

/-- A first piece is accepted if a timestamp and the start byte fit. Any other piece is accepted
wherever it may stand, even if nothing of it fits. -/
theorem addSysEx_accepted_iff (packer : Packer) (data : List UInt8) (time : Nat) :
    (packer.addSysEx data time).2 = true ↔
      packer.Receives data ∧ (data.head? = some sysExStart → 2 ≤ packer.room) := by
  unfold Receives
  by_cases starts : data.head? = some sysExStart
  · obtain ⟨rest, rfl⟩ := List.head?_eq_some_iff.mp starts
    rw [addSysEx_start, ite_accepted_iff, Bool.not_eq_false', fits_header_iff]
    simp
  · have closed : (!packer.isEmpty && !packer.sysExOpen) = false ↔
        packer.bytes = [] ∨ packer.sysExOpen = true := by
      cases bytes : packer.bytes <;> simp [isEmpty, bytes]
    rw [addSysEx_rest starts, ite_accepted_iff, closed]
    simp [starts]

/-- A system exclusive message that is added as a whole leaves nothing to be handed back. -/
theorem addMessage_sysEx_iff {piece : SysExPiece} :
    packer.addMessage (.sysEx piece) time = (next, true) ↔
      packer.addSysEx piece.data time = ((next, []), true) := by
  rw [addMessage]
  rcases packer.addSysEx piece.data time with ⟨⟨copy, _ | _⟩, _ | _⟩ <;> simp

/-- An accepted message is written behind the header, and the capacity stays. -/
theorem addMessage_appends (added : packer.addMessage message time = (next, true)) :
    next.bytes = packer.opened time ++ packer.written time message ∧
      next.capacity = packer.capacity := by
  cases message with
  | channel message =>
    rw [addMessage, addChannel_eq, ite_eq_true_iff] at added
    obtain ⟨-, rfl⟩ := added
    exact ⟨rfl, rfl⟩
  | common message =>
    rw [addMessage, addCommon_eq, ite_eq_true_iff] at added
    obtain ⟨-, rfl⟩ := added
    exact ⟨rfl, rfl⟩
  | realTime message =>
    rw [addMessage, addRealTime_eq, ite_eq_true_iff] at added
    obtain ⟨-, rfl⟩ := added
    exact ⟨rfl, rfl⟩
  | sysEx piece =>
    obtain ⟨count, fills, behind, -⟩ := addSysEx_fillsUp (addMessage_sysEx_iff.mp added)
    have all : (pieceEntries time piece.data).length ≤ count := by
      rw [length_pieceEntries]
      exact List.drop_eq_nil_iff.mp behind.symm
    rw [fills.bytes, List.take_of_length_le all]
    exact ⟨rfl, fills.capacity⟩

/-- A message is accepted exactly if all it is written as fits. -/
theorem addMessage_accepted_iff (packer : Packer) (message : Message) (time : Nat) :
    (packer.addMessage message time).2 = true ↔
      (∀ piece, message = .sysEx piece → packer.Receives piece.data) ∧
        (packer.written time message).length ≤ packer.room := by
  cases message with
  | channel message =>
    rw [addMessage, addChannel_eq, ite_accepted_iff, Bool.not_eq_false', fits_header_iff]
    simp [written]
  | common message =>
    have short : (packer.written time (.common message)).length = 2 + message.dataBytes.length :=
      Nat.add_comm message.dataBytes.length 2
    rw [addMessage, addCommon_eq, ite_accepted_iff, Bool.not_eq_false', Nat.add_assoc,
      fits_header_iff, short]
    simp
  | realTime message =>
    rw [addMessage, addRealTime_eq, ite_accepted_iff, Bool.not_eq_false', fits_header_iff]
    simp [written]
  | sysEx piece =>
    have admitted := addSysEx_accepted_iff packer piece.data time
    have receives : (∀ other, Message.sysEx piece = .sysEx other → packer.Receives other.data) ↔
        packer.Receives piece.data := by simp
    rw [receives, addMessage, written]
    rcases added : packer.addSysEx piece.data time with ⟨⟨copy, left⟩, _ | _⟩
    · rw [added] at admitted
      simp only [Bool.false_eq_true, false_iff, not_and] at admitted
      simp only [Bool.false_and, Bool.false_eq_true, if_false, false_iff, not_and]
      intro open_ short
      refine admitted open_ fun starts => Nat.le_trans ?_ short
      simp [pieceEntries, starts]
    · obtain ⟨count, fills, behind, -⟩ := addSysEx_fillsUp added
      have all := fills.all_iff fun entry member =>
        List.length_pos_iff.mp (length_of_mem_pieceEntries member).1
      have whole : left = [] ↔ count = (pieceEntries time piece.data).length := by
        have within := fills.within
        rw [length_pieceEntries] at within ⊢
        rw [behind, List.drop_eq_nil_iff]
        omega
      rw [added] at admitted
      rw [← all, ← whole, and_iff_right (admitted.mp rfl).1]
      cases left <;> simp

/-- A message that is accepted is one entry, and that entry has been written. -/
theorem addMessage_fillsUp (added : packer.addMessage message time = (next, true)) :
    packer.FillsUp next time [packer.written time message] 1 where
  within := Nat.le_refl 1
  bytes := by simpa using (addMessage_appends added).1
  bounded := by
    have short := ((addMessage_accepted_iff packer message time).mp (by rw [added])).2
    rw [room_eq packer time] at short
    rw [length, (addMessage_appends added).1, List.length_append]
    omega
  full := by simp
  capacity := (addMessage_appends added).2

end Whole

/-! ## Attempts -/

/-- Something to be added to a packet. -/
inductive Addition where
  | channel (message : ChannelMessage)
  | common (message : CommonMessage)
  | realTime (message : RealTimeMessage)
  /-- A message of any kind, as a whole. -/
  | whole (message : Message)
  /-- A system exclusive message or a piece of one, as far as it fits. -/
  | piece (data : List UInt8)
  /-- What is left of one, as far as it fits. -/
  | rest (data : List UInt8)

namespace Addition

/-- The message that is added as a whole. -/
def message? : Addition → Option Message
  | channel message => some (.channel message)
  | common message => some (.common message)
  | realTime message => some (.realTime message)
  | whole message => some message
  | piece _ | rest _ => none

/-- The data of which some may be handed back. -/
def data : Addition → List UInt8
  | piece data | rest data => data
  | _ => []

end Addition

/-- What an attempt to add something leaves behind. -/
structure Attempt where
  accepted : Bool
  packer : Packer
  /-- The data that is still to be added. -/
  left : List UInt8

/-- An attempt to add a message as a whole hands nothing back. -/
def Attempt.ofAnswer (answer : Packer × Bool) : Attempt := ⟨answer.2, answer.1, []⟩

/-- Try to add something, through the function that is made for it. -/
def attempt (packer : Packer) (time : Nat) : Addition → Attempt
  | .channel message => .ofAnswer (packer.addChannel message time)
  | .common message => .ofAnswer (packer.addCommon message time)
  | .realTime message => .ofAnswer (packer.addRealTime message time)
  | .whole message => .ofAnswer (packer.addMessage message time)
  | .piece data =>
    let ((next, left), accepted) := packer.addSysEx data time
    ⟨accepted, next, left⟩
  | .rest data => ⟨true, (packer.continueSysEx data time).1, (packer.continueSysEx data time).2⟩

/-- The entries of what is to be added. A message that is added as a whole is not divided. -/
def entries (packer : Packer) (time : Nat) : Addition → List (List UInt8)
  | .channel message => [packer.written time (.channel message)]
  | .common message => [packer.written time (.common message)]
  | .realTime message => [packer.written time (.realTime message)]
  | .whole message => [packer.written time message]
  | .piece data => pieceEntries time data
  | .rest data => restEntries time data

/-- There is room for all of a message that is added as a whole, and for the start of a system
exclusive message that may be divided. Data without a start byte has a place here. -/
def Admits (packer : Packer) (time : Nat) (addition : Addition) : Prop :=
  match addition.message? with
  | some message =>
    (∀ piece, message = .sysEx piece → packer.Receives piece.data) ∧
      (packer.written time message).length ≤ packer.room
  | none =>
    ∀ data, addition = .piece data →
      packer.Receives data ∧ (data.head? = some sysExStart → 2 ≤ packer.room)

/-- An attempt has added all that it could and kept to the capacity, or has changed nothing. -/
structure AllOrNothing (packer : Packer) (time : Nat) (addition : Addition) (attempt : Attempt) :
    Prop where
  accepted_iff : attempt.accepted = true ↔ packer.Admits time addition
  refused : attempt.accepted = false → attempt.packer = packer ∧ attempt.left = addition.data
  /-- Whole entries stand behind the packet as it was, and the data of the others is handed
  back. -/
  filled : attempt.accepted = true → ∃ count,
    packer.FillsUp attempt.packer time (packer.entries time addition) count ∧
      attempt.left = addition.data.drop count ∧
      (addition.message?.isSome → count = (packer.entries time addition).length)
  grows : packer.bytes <+: attempt.packer.bytes
  bounded : attempt.packer.length ≤ max packer.capacity.size packer.length

section Attempts

variable {packer next : Packer} {time count : Nat} {addition : Addition} {message : Message}
  {attempt : Attempt} {entries : List (List UInt8)}

theorem bytes_prefix_opened (packer : Packer) (time : Nat) :
    packer.bytes <+: packer.opened time := by
  unfold opened isEmpty
  cases packer.bytes <;> simp

/-- Filling a packet up only appends to it. -/
theorem FillsUp.grows (fills : packer.FillsUp next time entries count) :
    packer.bytes <+: next.bytes := by
  rw [fills.bytes]
  exact (bytes_prefix_opened packer time).trans (List.prefix_append _ _)

/-- A header alone keeps to every capacity. -/
theorem FillsUp.bounded_length (fills : packer.FillsUp next time entries count) :
    next.length ≤ max packer.capacity.size packer.length := by
  have wide := packer.capacity.least_le_size
  have header := packer.headerLength_cases
  have bounded := fills.bounded
  rw [length_opened] at bounded
  omega

/-- An attempt that has filled the packet up and keeps the rest of its data is as it should be. -/
theorem allOrNothing_accepted (admitted : packer.Admits time addition)
    (accepted : attempt.accepted = true)
    (fills : packer.FillsUp attempt.packer time (packer.entries time addition) count)
    (left : attempt.left = addition.data.drop count)
    (whole : addition.message?.isSome → count = (packer.entries time addition).length) :
    packer.AllOrNothing time addition attempt where
  accepted_iff := iff_of_true accepted admitted
  refused rejected := by simp [accepted] at rejected
  filled _ := ⟨count, fills, left, whole⟩
  grows := fills.grows
  bounded := fills.bounded_length

/-- An attempt that is barred leaves the packet and its data as they are. -/
theorem allOrNothing_refused (barred : ¬ packer.Admits time addition) :
    packer.AllOrNothing time addition ⟨false, packer, addition.data⟩ where
  accepted_iff := iff_of_false Bool.false_ne_true barred
  refused _ := ⟨rfl, rfl⟩
  filled accepted := absurd accepted Bool.false_ne_true
  grows := List.prefix_refl _
  bounded := Nat.le_max_right _ _

/-- A channel, common or real time message is one entry and has no data to leave behind. -/
theorem attempt_of_message (packer : Packer) (time : Nat)
    (adds : addition.message? = some message) :
    packer.attempt time addition = .ofAnswer (packer.addMessage message time) ∧
      packer.entries time addition = [packer.written time message] ∧ addition.data = [] := by
  cases addition <;> cases adds <;> exact ⟨rfl, rfl, rfl⟩

/-- Channel, common and real time messages are added as a whole or not at all. -/
theorem attempt_whole (adds : addition.message? = some message) :
    packer.AllOrNothing time addition (packer.attempt time addition) := by
  obtain ⟨tried, single, nothing⟩ := attempt_of_message packer time adds
  have admits : packer.Admits time addition ↔ (packer.addMessage message time).2 = true := by
    rw [Admits, adds, addMessage_accepted_iff]
  rw [tried]
  rcases added : packer.addMessage message time with ⟨next, _ | _⟩
  · rw [added] at admits
    obtain rfl := addMessage_refused added
    have kept : Attempt.ofAnswer (next, false) = ⟨false, next, addition.data⟩ := by
      rw [nothing]
      rfl
    rw [kept]
    exact allOrNothing_refused (by simp [admits])
  · rw [added] at admits
    have fills : packer.FillsUp next time (packer.entries time addition) 1 := by
      rw [single]
      exact addMessage_fillsUp added
    have left : [] = addition.data.drop 1 := by rw [nothing]; rfl
    have whole : 1 = (packer.entries time addition).length := by rw [single]; rfl
    exact allOrNothing_accepted (admits.mpr rfl) rfl fills left fun _ => whole

/-- A first piece of a system exclusive message is added as far as it fits, or not at all. -/
theorem attempt_piece (packer : Packer) (time : Nat) (data : List UInt8) :
    packer.AllOrNothing time (.piece data) (packer.attempt time (.piece data)) := by
  have admits : packer.Admits time (.piece data) ↔ (packer.addSysEx data time).2 = true := by
    rw [addSysEx_accepted_iff]
    simp [Admits, Addition.message?]
  rw [attempt]
  rcases added : packer.addSysEx data time with ⟨⟨next, left⟩, _ | _⟩
  · rw [added] at admits
    obtain ⟨rfl, rfl⟩ := addSysEx_refused added
    exact allOrNothing_refused (by simp [admits])
  · rw [added] at admits
    obtain ⟨count, fills, behind, -⟩ := addSysEx_fillsUp added
    exact allOrNothing_accepted (admits.mpr rfl) rfl fills behind (by simp [Addition.message?])

/-- The rest of a system exclusive message is added as far as it fits, or not at all. -/
theorem attempt_rest (packer : Packer) (time : Nat) (data : List UInt8) :
    packer.AllOrNothing time (.rest data) (packer.attempt time (.rest data)) := by
  obtain ⟨count, fills, behind⟩ := continueSysEx_fillsUp packer data time
  have admitted : packer.Admits time (.rest data) := by simp [Admits, Addition.message?]
  exact allOrNothing_accepted admitted rfl fills behind (by simp [Addition.message?])

end Attempts

/-- Whatever is added, a packer is unchanged if it refuses and is filled up with whole entries if it
does not. A system exclusive message is added as a whole exactly if nothing of it would be handed
back, and a new packet takes any other message. -/
theorem attempt_allOrNothing (packer : Packer) (time : Nat) :
    (∀ addition, packer.AllOrNothing time addition (packer.attempt time addition)) ∧
      (∀ piece : SysExPiece, (packer.attempt time (.whole (.sysEx piece))).accepted = true ↔
        (packer.attempt time (.piece piece.data)).accepted = true ∧
          (packer.attempt time (.piece piece.data)).left = []) ∧
      (packer.bytes = [] → ∀ addition message, addition.message? = some message →
        (∀ piece, message ≠ .sysEx piece) → (packer.attempt time addition).accepted = true) := by
  refine ⟨fun addition => ?_, fun piece => ?_, fun empty addition message adds whole => ?_⟩
  · cases addition with
    | piece data => exact attempt_piece packer time data
    | rest data => exact attempt_rest packer time data
    | _ => exact attempt_whole rfl
  · simp only [attempt, Attempt.ofAnswer, addMessage]
    rcases packer.addSysEx piece.data time with ⟨⟨next, _ | _⟩, _ | _⟩ <;> simp
  · rw [(attempt_of_message packer time adds).1]
    exact addMessage_accepted empty whole time

end MidiTransport.Ble.Packer
