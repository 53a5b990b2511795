import Mathlib.Data.List.Induction
import MidiTransport.Proofs.Ble.PacketSizes
import MidiTransport.Proofs.Ble.Spreading

/-!
# When a packet was begun

A transmitter knows an instant exactly as long as a packet is under way (`Transmitter.Armed`). A
message goes on with that packet or begins another one, and in the latter case the instant is that
of the message (`Transmitter.Dates`). All other calls leave the packet and the instant alone or take
both away. So a packet waits from the call on that wrote its first byte, whatever is added to it
later and whatever instants the calls name (`Transmitter.started_of_run`).
-/

namespace MidiTransport.Ble

namespace Transmitter

/-! ## Messages -/

/-- An instant is known exactly if a packet is under way. -/
def Armed (transmitter : Transmitter) : Prop :=
  transmitter.started.isSome ↔ transmitter.packer.bytes ≠ []

/-- Something with this time has been sent at this instant. The packet under way goes on, or another
one has been begun, which has the header of that time. -/
structure Dates (transmitter : Transmitter) (time now : Nat)
    (outcome : Transmitter × List (List UInt8)) : Prop where
  timeout : outcome.1.timeout = transmitter.timeout
  begun : outcome.1.packer.bytes ≠ []
  kept : outcome.2 = [] → transmitter.packer.bytes ≠ [] →
    outcome.1.started = transmitter.started ∧ transmitter.packer.bytes <+: outcome.1.packer.bytes
  fresh : outcome.2 ≠ [] ∨ transmitter.packer.bytes = [] →
    outcome.1.started = some now ∧ outcome.1.packer.bytes.head? = some (headerByte time)

variable {transmitter next loaded final : Transmitter} {packer : Packer} {time now count : Nat}
  {entries cleared front back : List (List UInt8)} {outcome : Transmitter × List (List UInt8)}

namespace Dates

theorem refl (begun : transmitter.packer.bytes ≠ []) :
    transmitter.Dates time now (transmitter, []) :=
  ⟨rfl, begun, fun _ _ => ⟨rfl, List.prefix_rfl⟩, fun new => by simp [begun] at new⟩

theorem trans (early : transmitter.Dates time now (next, front))
    (late : next.Dates time now (final, back)) :
    transmitter.Dates time now (final, front ++ back) where
  timeout := late.timeout.trans early.timeout
  begun := late.begun
  kept := by
    intro silent begun
    obtain ⟨rfl, rfl⟩ := List.append_eq_nil_iff.mp silent
    obtain ⟨started, grown⟩ := early.kept rfl begun
    obtain ⟨later, further⟩ := late.kept rfl early.begun
    exact ⟨later.trans started, grown.trans further⟩
  fresh := by
    intro new
    by_cases silent : back = []
    · obtain ⟨later, rest, grown⟩ := late.kept silent early.begun
      obtain ⟨started, header⟩ := early.fresh (by simpa [silent] using new)
      refine ⟨later.trans started, ?_⟩
      rw [← grown, List.head?_append, header]
      rfl
    · exact late.fresh (.inl silent)

/-- What is sent leaves a packet under way, and its instant is known. -/
theorem armed (dates : transmitter.Dates time now outcome) (armed : transmitter.Armed) :
    outcome.1.Armed := by
  refine iff_of_true ?_ dates.begun
  by_cases new : outcome.2 ≠ [] ∨ transmitter.packer.bytes = []
  · rw [(dates.fresh new).1]
    rfl
  · obtain ⟨spoke, begun⟩ := not_or.mp new
    rw [(dates.kept (Classical.not_not.mp spoke) begun).1]
    exact armed.mpr begun

end Dates

/-- No instant outlives its packet. -/
theorem started_flush (transmitter : Transmitter) : transmitter.flush.1.started = none := by
  unfold flush
  split <;> rfl

theorem timeout_flush (transmitter : Transmitter) :
    transmitter.flush.1.timeout = transmitter.timeout := by
  unfold flush
  split <;> rfl

theorem armed_flush (transmitter : Transmitter) : transmitter.flush.1.Armed := by
  simp [Armed, started_flush]

/-- Something has been added to the packet under way. -/
theorem dates_load (now : Nat) (armed : transmitter.Armed)
    (fills : transmitter.packer.FillsUp packer time entries count) :
    transmitter.Dates time now ({ transmitter with packer }.start now, []) where
  timeout := rfl
  begun := by
    show packer.bytes ≠ []
    rw [fills.bytes, Packer.opened]
    split <;> simp_all [Packer.isEmpty]
  kept := by
    intro _ begun
    obtain ⟨instant, known⟩ := Option.isSome_iff_exists.mp (armed.mpr begun)
    exact ⟨by simp [start, known], fills.grows⟩
  fresh := by
    intro new
    have empty : transmitter.packer.bytes = [] := by simpa using new
    have unknown : transmitter.started = none :=
      Option.not_isSome_iff_eq_none.mp fun known => armed.mp known empty
    refine ⟨by simp [start, unknown], ?_⟩
    show packer.bytes.head? = _
    simp [fills.bytes, Packer.opened, Packer.isEmpty, empty]

/-- Something has been added to the packet under way, or to a new one behind it. -/
theorem dates_clears (now : Nat) (armed : transmitter.Armed) (clears : transmitter.Clears loaded cleared)
    (fills : loaded.packer.FillsUp packer time entries count) :
    transmitter.Dates time now ({ loaded with packer }.start now, cleared) := by
  cases clears with
  | kept => exact dates_load now armed fills
  | flushed =>
    have dates := dates_load now transmitter.armed_flush fills
    refine ⟨dates.timeout.trans transmitter.timeout_flush, dates.begun, fun silent begun => ?_,
      fun _ => dates.fresh (.inr transmitter.bytes_flush)⟩
    rw [flush_sent begun] at silent
    cases silent

/-- The last packet of a long message is the one that goes on to be dated. -/
theorem dates_sendRest (rest : List UInt8) (armed : transmitter.Armed)
    (begun : transmitter.packer.bytes ≠ []) :
    transmitter.Dates time now (transmitter.sendRest rest time now) := by
  fun_induction sendRest transmitter rest time now with
  | case1 transmitter => exact .refl begun
  | case2 transmitter rest more continued final others equation ih =>
    obtain ⟨count, fills, -⟩ :=
      Packer.continueSysEx_fillsUp transmitter.flush.1.packer rest time
    have dates := dates_clears now armed .flushed fills
    have later := ih (dates.armed armed) dates.begun
    rw [equation] at later
    exact dates.trans later

/-- Whatever is sent dates the packet that is under way behind it. -/
theorem dates_send (message : Message) (time now : Nat) (armed : transmitter.Armed) :
    transmitter.Dates time now (transmitter.send message time now) := by
  have whole (single : ∀ piece, message ≠ .sysEx piece) :
      transmitter.Dates time now (transmitter.sendWhole message time now) := by
    obtain ⟨loaded, cleared, packer, clears, added, equation⟩ :=
      transmitter.sendWhole_cases time now single
    rw [equation]
    exact dates_clears now armed clears (Packer.addMessage_fillsUp added)
  cases message with
  | sysEx piece =>
    obtain ⟨loaded, cleared, packer, left, clears, added, equation⟩ :=
      transmitter.sendSysEx_cases piece time now
    obtain ⟨count, fills, -⟩ := Packer.addSysEx_fillsUp added
    have dates := dates_clears now armed clears fills
    rw [send, equation]
    exact dates.trans (dates_sendRest left (dates.armed armed) dates.begun)
  | channel message => exact whole (by simp)
  | common message => exact whole (by simp)
  | realTime message => exact whole (by simp)

/-! ## Other calls -/

/-- The packet under way and its instant are as they were, or both are gone. -/
inductive Rests (transmitter : Transmitter) (outcome : Transmitter × List (List UInt8)) : Prop where
  | kept (bytes : outcome.1.packer.bytes = transmitter.packer.bytes)
      (started : outcome.1.started = transmitter.started) (silent : outcome.2 = [])
  | emptied (bytes : outcome.1.packer.bytes = []) (started : outcome.1.started = none)
      (sent : transmitter.packer.bytes ≠ [] → outcome.2 = [transmitter.packer.bytes])

namespace Rests

/-- A call that sends nothing new keeps the instant with its packet. -/
theorem armed (rests : transmitter.Rests outcome) (armed : transmitter.Armed) :
    outcome.1.Armed := by
  cases rests with
  | kept bytes started silent =>
    rw [Armed, bytes, started]
    exact armed
  | emptied bytes started sent => simp [Armed, bytes, started]

end Rests

theorem rests_flush (transmitter : Transmitter) : transmitter.Rests transmitter.flush :=
  .emptied transmitter.bytes_flush transmitter.started_flush flush_sent

theorem Clears.rests (clears : transmitter.Clears loaded cleared) :
    transmitter.Rests (loaded, cleared) := by
  cases clears with
  | kept => exact .kept rfl rfl rfl
  | flushed => exact transmitter.rests_flush

/-- A poll leaves the packet alone or sends it. -/
theorem rests_poll (transmitter : Transmitter) (now : Nat) :
    transmitter.Rests (transmitter.poll now) := by
  unfold poll
  split
  · exact .kept rfl rfl rfl
  · split
    · exact transmitter.rests_flush
    · exact .kept rfl rfl rfl

/-- A new unit leaves the packet alone or sends it. -/
theorem rests_applyUnit (transmitter : Transmitter) : transmitter.Rests transmitter.applyUnit := by
  obtain ⟨loaded, cleared, clears, -, equation⟩ := transmitter.applyUnit_cases
  rw [equation]
  cases clears.rests with
  | kept bytes started silent => exact .kept bytes started silent
  | emptied bytes started sent => exact .emptied bytes started sent

/-- A call that sends no message leaves the instant of the packet under way alone. -/
theorem rests_perform {command : Command} (quiet : command.message? = none)
    (transmitter : Transmitter) : transmitter.Rests (transmitter.perform command) := by
  cases command with
  | send => cases quiet
  | poll now => exact transmitter.rests_poll now
  | flush => exact transmitter.rests_flush
  | setTimeout timeout => exact .kept rfl rfl rfl
  | setTransferUnit transferUnit =>
    cases rests_applyUnit { transmitter with transferUnit } with
    | kept bytes started silent => exact .kept bytes started silent
    | emptied bytes started sent => exact .emptied bytes started sent
  | forceUnit forcedUnit =>
    cases rests_applyUnit { transmitter with forcedUnit } with
    | kept bytes started silent => exact .kept bytes started silent
    | emptied bytes started sent => exact .emptied bytes started sent

/-- A packet that is longer than a call allows is sent by it. -/
theorem bytes_perform_of_long {command : Command} (settles : command.settles = true)
    (long : (transmitter.terms.settle command).packetSize < transmitter.packer.length) :
    (transmitter.perform command).1.packer.bytes = [] := by
  have sent (adjusted : Transmitter) (same : adjusted.packer = transmitter.packer)
      (terms : adjusted.terms = transmitter.terms.settle command) :
      adjusted.applyUnit.1.packer.bytes = [] := by
    obtain ⟨loaded, cleared, clears, short, equation⟩ := adjusted.applyUnit_cases
    rw [equation]
    cases clears with
    | kept =>
      rw [same, terms] at short
      omega
    | flushed => exact adjusted.bytes_flush
  cases command with
  | setTransferUnit transferUnit => exact sent { transmitter with transferUnit } rfl rfl
  | forceUnit forcedUnit => exact sent { transmitter with forcedUnit } rfl rfl
  | _ => cases settles

/-! ## Runs -/

/-- Every call keeps an instant for a packet under way and for no other. -/
theorem armed_perform (armed : transmitter.Armed) (command : Command) :
    (transmitter.perform command).1.Armed := by
  cases command with
  | send message time now => exact (dates_send message time now armed).armed armed
  | _ => exact (rests_perform rfl transmitter).armed armed

/-- Behind every run an instant is known exactly if a packet is under way. -/
theorem armed_run (armed : transmitter.Armed) (commands : List Command) :
    (transmitter.run commands).1.Armed := by
  induction commands generalizing transmitter with
  | nil => exact armed
  | cons command later ih => exact ih (armed_perform armed command)

theorem armed_initial : initial.Armed :=
  iff_of_false (Bool.eq_false_iff.mp rfl) (not_not_intro rfl)

/-- The last call of a run finds what the calls before it have left. -/
theorem run_concat (transmitter : Transmitter) (commands : List Command) (command : Command) :
    transmitter.run (commands ++ [command]) =
      (((transmitter.run commands).1.perform command).1,
        (transmitter.run commands).2 ++ ((transmitter.run commands).1.perform command).2) := by
  induction commands generalizing transmitter with
  | nil => simp [run]
  | cons first later ih => rw [List.cons_append, run_cons, ih, run_cons, List.append_assoc]

/-- The number of packets that are under way. -/
def underWay (transmitter : Transmitter) : Nat := if transmitter.packer.isEmpty then 0 else 1

theorem underWay_of_begun (begun : transmitter.packer.bytes ≠ []) : transmitter.underWay = 1 := by
  simp [underWay, Packer.isEmpty, begun]

theorem underWay_of_empty (empty : transmitter.packer.bytes = []) : transmitter.underWay = 0 := by
  simp [underWay, Packer.isEmpty, empty]

/-- At most one packet is under way. -/
theorem underWay_le (transmitter : Transmitter) : transmitter.underWay ≤ 1 := by
  unfold underWay
  split <;> omega

/-- The number of packets that have got a first byte: those that were sent and the one under way. -/
def packetsBegun (commands : List Command) : Nat :=
  (initial.run commands).2.length + (initial.run commands).1.underWay

/-- Of calls on a new link this one has written the first byte of the packet that is under way in
the end. Before it fewer packets had been begun than in the end, behind it all of them. -/
structure Begins (before : List Command) (command : Command) (after : List Command) : Prop where
  fewer : packetsBegun before < packetsBegun (before ++ command :: after)
  all : packetsBegun (before ++ [command]) = packetsBegun (before ++ command :: after)

variable {commands before after : List Command} {command : Command}

/-- One more call begins the packets that it sends and leaves, less the one it has found. -/
theorem packetsBegun_concat (commands : List Command) (command : Command) :
    packetsBegun (commands ++ [command]) = (initial.run commands).2.length +
      (((initial.run commands).1.perform command).2.length +
        ((initial.run commands).1.perform command).1.underWay) := by
  rw [packetsBegun, run_concat, List.length_append, Nat.add_assoc]

/-- No call takes a packet back. -/
theorem underWay_le_perform (armed : transmitter.Armed) (command : Command) :
    transmitter.underWay ≤
      (transmitter.perform command).2.length + (transmitter.perform command).1.underWay := by
  have quiet (rests : transmitter.Rests (transmitter.perform command)) :
      transmitter.underWay ≤
        (transmitter.perform command).2.length + (transmitter.perform command).1.underWay := by
    cases rests with
    | kept bytes started silent => simp [underWay, Packer.isEmpty, bytes, silent]
    | emptied bytes started sent =>
      by_cases begun : transmitter.packer.bytes = []
      · rw [underWay_of_empty begun]
        exact Nat.zero_le _
      · rw [sent begun, underWay_of_begun begun]
        exact Nat.le_add_right _ _
  cases command with
  | send message time now =>
    have dates := dates_send message time now armed
    rw [perform, underWay_of_begun dates.begun]
    exact Nat.le_add_left_of_le transmitter.underWay_le
  | _ => exact quiet (rests_perform rfl transmitter)

/-- Later calls take no packet back. -/
theorem packetsBegun_le_append (commands later : List Command) :
    packetsBegun commands ≤ packetsBegun (commands ++ later) := by
  induction later using List.reverseRecOn with
  | nil => exact Nat.le_of_eq (by rw [List.append_nil])
  | append_singleton later command ih =>
    have more := underWay_le_perform (armed_run armed_initial (commands ++ later)) command
    rw [← List.append_assoc, packetsBegun_concat]
    exact Nat.le_trans ih (Nat.add_le_add_left more _)

namespace Begins

/-- No other call behind this one has written the first byte of the same packet. -/
theorem not_later {between : List Command} {other : Command}
    (begins : Begins before command (between ++ other :: after))
    (also : Begins (before ++ command :: between) other after) : False := by
  have order := packetsBegun_le_append (before ++ [command]) between
  have fewer := also.fewer
  have all := begins.all
  simp only [List.append_assoc, List.cons_append, List.nil_append] at order fewer all
  omega

/-- At most one call has written the first byte of the packet that is under way. -/
theorem unique {others rest : List Command} {other : Command}
    (begins : Begins before command after) (also : Begins others other rest)
    (same : before ++ command :: after = others ++ other :: rest) : command = other := by
  rcases List.append_eq_append_iff.mp same with ⟨between, rfl, split⟩ | ⟨between, rfl, split⟩
  · cases between with
    | nil => exact (List.cons.inj split).1
    | cons first between =>
      obtain ⟨rfl, rfl⟩ := List.cons.inj split
      exact (begins.not_later also).elim
  · cases between with
    | nil => exact (List.cons.inj split).1.symm
    | cons first between =>
      obtain ⟨rfl, rfl⟩ := List.cons.inj split
      exact (also.not_later begins).elim

end Begins

/-- A message with this time, sent at this instant, has begun the packet that is under way behind
these calls. -/
def BegunBy (commands : List Command) (time now : Nat) : Prop :=
  (initial.run commands).1.packer.bytes ≠ [] ∧ ∃ before message after,
    commands = before ++ .send message time now :: after ∧
      Begins before (.send message time now) after

namespace BegunBy

/-- Only one message has begun the packet under way. -/
theorem unique {otherTime otherNow : Nat} (begun : BegunBy commands time now)
    (also : BegunBy commands otherTime otherNow) : time = otherTime ∧ now = otherNow := by
  obtain ⟨-, before, message, after, rfl, begins⟩ := begun
  obtain ⟨-, others, other, rest, same, alsoBegins⟩ := also
  obtain ⟨rfl, rfl, rfl⟩ := Command.send.inj (begins.unique alsoBegins same)
  exact ⟨rfl, rfl⟩

/-- A message has begun another packet. -/
theorem of_new (message : Message) (time now : Nat)
    (new : ((initial.run commands).1.send message time now).2 ≠ [] ∨
      (initial.run commands).1.packer.bytes = []) :
    BegunBy (commands ++ [.send message time now]) time now := by
  have dates := dates_send message time now (armed_run armed_initial commands)
  refine ⟨?_, commands, message, [], rfl, ?_, rfl⟩
  · rw [run_concat]
    exact dates.begun
  · rw [packetsBegun_concat, perform, underWay_of_begun dates.begun, packetsBegun]
    rcases new with spoke | empty
    · have few := (initial.run commands).1.underWay_le
      have positive := List.length_pos_iff.mpr spoke
      omega
    · rw [underWay_of_empty empty]
      omega

/-- A call has left the packet under way. -/
theorem concat (begun : BegunBy commands time now)
    (silent : ((initial.run commands).1.perform command).2 = [])
    (stays : ((initial.run commands).1.perform command).1.packer.bytes ≠ []) :
    BegunBy (commands ++ [command]) time now := by
  have same : packetsBegun (commands ++ [command]) = packetsBegun commands := by
    rw [packetsBegun_concat, silent, underWay_of_begun stays, packetsBegun,
      underWay_of_begun begun.1]
    rfl
  obtain ⟨-, before, message, after, rfl, begins⟩ := begun
  have split : before ++ .send message time now :: (after ++ [command]) =
      before ++ .send message time now :: after ++ [command] := by simp
  refine ⟨?_, before, message, after ++ [command], split.symm, ?_, ?_⟩
  · rw [run_concat]
    exact stays
  · rw [split, same]
    exact begins.fewer
  · rw [split, same]
    exact begins.all

end BegunBy

/-- The packet under way has been begun by this message: its instant is the one that is known, and
its time stands in the header. -/
structure Dated (commands : List Command) (time now : Nat) : Prop where
  begun : BegunBy commands time now
  known : (initial.run commands).1.started = some now
  header : (initial.run commands).1.packer.bytes.head? = some (headerByte time)

/-- A call has left the packet under way, and perhaps added to it. -/
theorem Dated.concat (dated : Dated commands time now)
    (silent : ((initial.run commands).1.perform command).2 = [])
    (started : ((initial.run commands).1.perform command).1.started =
      (initial.run commands).1.started)
    (grown : (initial.run commands).1.packer.bytes <+:
      ((initial.run commands).1.perform command).1.packer.bytes) :
    Dated (commands ++ [command]) time now := by
  obtain ⟨begun, known, header⟩ := dated
  have stays : ((initial.run commands).1.perform command).1.packer.bytes ≠ [] := by
    intro empty
    rw [empty, List.prefix_nil] at grown
    exact begun.1 grown
  refine ⟨begun.concat silent stays, ?_, ?_⟩
  · rw [run_concat]
    exact started.trans known
  · obtain ⟨rest, grown⟩ := grown
    rw [run_concat, ← grown, List.head?_append, header]
    rfl

/-- Every packet under way has been begun by a message that was sent. -/
theorem exists_dated (commands : List Command)
    (begun : (initial.run commands).1.packer.bytes ≠ []) : ∃ time now, Dated commands time now := by
  induction commands using List.reverseRecOn with
  | nil => exact absurd rfl begun
  | append_singleton commands command ih =>
    rw [run_concat] at begun
    have quiet (rests : (initial.run commands).1.Rests
        ((initial.run commands).1.perform command)) :
        ∃ time now, Dated (commands ++ [command]) time now := by
      cases rests with
      | kept bytes started silent =>
        obtain ⟨time, now, dated⟩ := ih (bytes ▸ begun)
        exact ⟨time, now, dated.concat silent started (bytes ▸ List.prefix_rfl)⟩
      | emptied bytes => exact absurd bytes begun
    cases command with
    | send message time now =>
      have dates := dates_send message time now (armed_run armed_initial commands)
      by_cases new : ((initial.run commands).1.send message time now).2 ≠ [] ∨
          (initial.run commands).1.packer.bytes = []
      · obtain ⟨known, header⟩ := dates.fresh new
        refine ⟨time, now, .of_new message time now new, ?_, ?_⟩
        · rw [run_concat]
          exact known
        · rw [run_concat]
          exact header
      · obtain ⟨spoke, before⟩ := not_or.mp new
        have silent := Classical.not_not.mp spoke
        obtain ⟨started, grown⟩ := dates.kept silent before
        obtain ⟨earlier, instant, dated⟩ := ih before
        exact ⟨earlier, instant, dated.concat silent started grown⟩
    | _ => exact quiet (rests_perform rfl _)

/-- The message that has begun the packet under way is the one whose instant is known. -/
theorem BegunBy.dated (begun : BegunBy commands time now) : Dated commands time now := by
  obtain ⟨otherTime, otherNow, dated⟩ := exists_dated commands begun.1
  obtain ⟨rfl, rfl⟩ := begun.unique dated.begun
  exact dated

/-! ## Timeouts -/

/-- Settle what a call says about how long a packet waits. -/
def settleTimeout (timeout : Nat) : Command → Nat
  | .setTimeout timeout => timeout
  | _ => timeout

/-- A call settles the timeout, or leaves it as it is. -/
theorem timeout_perform (armed : transmitter.Armed) (command : Command) :
    (transmitter.perform command).1.timeout = settleTimeout transmitter.timeout command := by
  have adjusted (adjusted : Transmitter) : adjusted.applyUnit.1.timeout = adjusted.timeout := by
    obtain ⟨loaded, cleared, clears, -, equation⟩ := adjusted.applyUnit_cases
    rw [equation]
    cases clears with
    | kept => rfl
    | flushed => exact adjusted.timeout_flush
  cases command with
  | send message time now => exact (dates_send message time now armed).timeout
  | poll now =>
    rw [perform, poll]
    split
    · rfl
    · split
      · exact transmitter.timeout_flush
      · rfl
  | flush => exact transmitter.timeout_flush
  | setTimeout timeout => rfl
  | setTransferUnit transferUnit => exact adjusted { transmitter with transferUnit }
  | forceUnit forcedUnit => exact adjusted { transmitter with forcedUnit }

/-- Behind a run the timeout is the one that was settled last. -/
theorem timeout_run (armed : transmitter.Armed) (commands : List Command) :
    (transmitter.run commands).1.timeout = commands.foldl settleTimeout transmitter.timeout := by
  induction commands generalizing transmitter with
  | nil => rfl
  | cons command later ih =>
    rw [List.foldl_cons, ← timeout_perform armed command]
    exact ih (armed_perform armed command)

/-- How long a packet waits behind calls on a new link. -/
def timeoutAfter (commands : List Command) : Nat := commands.foldl settleTimeout defaultTimeout

/-- A poll that sends something has flushed. -/
theorem poll_of_sent (sent : (transmitter.poll now).2 ≠ []) :
    transmitter.poll now = transmitter.flush := by
  unfold poll at sent ⊢
  split at sent
  · exact absurd rfl sent
  · split at sent
    · rename_i due
      exact if_pos due
    · exact absurd rfl sent

/-- A poll sends the packet under way once the timeout has passed since the instant that is
known. -/
theorem poll_sent_iff (armed : transmitter.Armed) :
    (transmitter.poll now).2 ≠ [] ↔
      ∃ instant, transmitter.started = some instant ∧ transmitter.timeout ≤ now - instant := by
  unfold poll
  split
  · rename_i unknown
    simp [unknown]
  · rename_i instant known
    have sent := flush_sent (armed.mp (by rw [known]; rfl))
    split
    · rename_i due
      simp [known, due, sent]
    · rename_i early
      simp [known, early]

/-! ## Waiting packets -/

/-- Behind any calls an instant is known exactly if a packet is under way, and it is that of the
message that has begun the packet. A poll sends the packet exactly if the timeout has passed since
then, where no time has passed if instants go backwards. Behind such a poll, a flush or a call that
allows only shorter packets, none is under way. -/
theorem started_of_run (commands : List Command) :
    let reached := (initial.run commands).1
    (reached.started.isSome ↔ reached.packer.bytes ≠ []) ∧
      (reached.packer.bytes ≠ [] → ∃ time now, BegunBy commands time now) ∧
      (∀ time now, BegunBy commands time now → reached.started = some now ∧
        reached.packer.bytes.head? = some (headerByte time)) ∧
      (∀ now, (reached.poll now).2 ≠ [] ↔ ∃ time instant, BegunBy commands time instant ∧
        timeoutAfter commands ≤ now - instant) ∧
      (∀ now, (reached.poll now).2 ≠ [] → (reached.poll now).2 = [reached.packer.bytes] ∧
        (reached.poll now).1.packer.bytes = []) ∧
      reached.flush.1.packer.bytes = [] ∧
      ∀ command, (termsAfter (commands ++ [command])).packetSize < reached.packer.length →
        (reached.perform command).1.packer.bytes = [] := by
  intro reached
  have armed : reached.Armed := armed_run armed_initial commands
  have timeout : reached.timeout = timeoutAfter commands := timeout_run armed_initial commands
  refine ⟨armed, fun begun => ?_, fun time now begun => ⟨begun.dated.known, begun.dated.header⟩,
    fun now => ?_, fun now sent => ?_, reached.bytes_flush, fun command long => ?_⟩
  · obtain ⟨time, now, dated⟩ := exists_dated commands begun
    exact ⟨time, now, dated.begun⟩
  · rw [poll_sent_iff armed, timeout]
    constructor
    · rintro ⟨instant, known, due⟩
      obtain ⟨time, start, dated⟩ := exists_dated commands (armed.mp (by rw [known]; rfl))
      obtain rfl : start = instant := Option.some.inj (dated.known.symm.trans known)
      exact ⟨time, start, dated.begun, due⟩
    · rintro ⟨time, instant, begun, due⟩
      exact ⟨instant, begun.dated.known, due⟩
  · obtain ⟨instant, known, -⟩ := (poll_sent_iff armed).mp sent
    rw [poll_of_sent sent]
    exact ⟨flush_sent (armed.mp (by rw [known]; rfl)), reached.bytes_flush⟩
  · have honours : reached.Honours (termsAfter commands) := honours_initial.run commands
    have settled : termsAfter (commands ++ [command]) = reached.terms.settle command := by
      rw [honours.settled, termsAfter, termsAfter, List.foldl_append]
      rfl
    rw [settled] at long
    cases settles : command.settles with
    | true => exact bytes_perform_of_long settles long
    | false =>
      -- Nothing has changed, and the packet is not longer than what was allowed before.
      have short := honours.ready.length_le
      rw [honours.capacity, ← honours.settled] at short
      rw [Terms.settle_of_quiet settles] at long
      omega

/-- What is added to a packet later, at an instant further back, does not let it wait longer. -/
example :
    (initial.run [.send (.channel ⟨0x90, 0x40, 0x41, .first⟩) 1 500,
      .send (.realTime ⟨0xF8, .first⟩) 2 300, .poll 10400]).1.started = some 500 := by
  decide +kernel

end Transmitter

end MidiTransport.Ble
