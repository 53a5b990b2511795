import MidiTransport.Ble.BufferedReader
import MidiTransport.Proofs.Ble.Parts
import MidiTransport.Proofs.Ble.RingQueue

/-!
# A buffered reader reads whole packets

Through a ring packets reach their reader in chunks, which the caller has cut or the ring
has cut at its end, and pulls may come between any two of them. What has not been read yet
is `BufferedReader.outstanding`: the rest of the current chunk and the chunks that wait. A
pull takes its first message away, and a push adds what its chunk brings, however the ring
divides it. So all pulls together bring what the packets bring when they are read one by one
(`BufferedReader.messagesOfRun_eq_readPackets`).
-/

namespace MidiTransport.Ble

/-- A call of a buffered reader. -/
inductive BufferCall where
  | push (data : List UInt8) (kind : ChunkKind)
  | pull
  deriving DecidableEq, Repr

/-- The answer to a call of a buffered reader. -/
inductive BufferAnswer where
  | pushed (accepted : Bool)
  /-- A message and its time, or nothing. -/
  | pulled (found? : Option (Message × Nat))
  deriving DecidableEq

/-- The chunk that a call pushes. -/
def BufferCall.chunk? : BufferCall → Option (ChunkKind × List UInt8)
  | .push data kind => some (kind, data)
  | .pull => none

/-- The message that an answer brings. -/
def BufferAnswer.found? : BufferAnswer → Option (Message × Nat)
  | .pushed _ => none
  | .pulled found? => found?

namespace Reader

variable {reader : Reader}

/-- A ring may divide a chunk, but not within the first two bytes of a packet. -/
theorem readChunks_of_divides {kind : ChunkKind} {data : List UInt8}
    {chunks : List (ChunkKind × List UInt8)} (clear : reader.decoder.held = none)
    (divides : ChunkQueue.Divides kind data chunks) :
    Alike (reader.readChunks chunks) (reader.readChunks [(kind, data)]) := by
  cases divides with
  | whole => exact .refl _
  | @halved head tail joined nonempty even rest =>
    subst joined
    cases kind with
    | packet =>
      have long : 2 ≤ head.length := by
        have positive := List.length_pos_iff.mpr nonempty
        omega
      have parts := Portions.parts head [tail] long
      rw [List.flatten_singleton] at parts
      exact (readChunks_of_portions clear parts).trans
        (readChunks_of_portions clear (.whole _)).symm
    | continuation =>
      have halves := readChunks_continuations clear [head, tail]
      have whole := readChunks_continuations clear [head ++ tail]
      simp only [List.flatten_cons, List.flatten_nil, List.append_nil] at halves whole
      exact halves.trans whole.symm

end Reader

namespace BufferedReader

open Reader (Alike)

variable {buffered : BufferedReader} {queue : ChunkQueue}

/-- What a reader has still to read when these chunks are in its ring. -/
def outstanding (reader : Reader) (queue : ChunkQueue) : List (Message × Nat) × Reader :=
  Reader.goOn (reader.drain queue.current.2) queue.pending

/-- Whoever has read all that is queued holds no message back. -/
theorem held_outstanding (reader : Reader) (queue : ChunkQueue) :
    (outstanding reader queue).2.decoder.held = none :=
  Reader.held_readChunks (Reader.held_drain _ _) _

/-! ## Pulling -/

/-- A pull without a message is all that a drain does. -/
theorem drain_of_pull_none {reader : Reader} {data : List UInt8}
    (dry : (reader.pull data).2 = none) : reader.drain data = ([], (reader.pull data).1) := by
  rw [Reader.drain_eq_resolve, Reader.resolve_of_pull_none dry]

/-- A message that is found is the first one that was outstanding. -/
theorem outstanding_of_found {reader : Reader} {event : Event}
    (found : (reader.pull queue.current.2).2 = some event) :
    outstanding reader queue =
      ((event.message, (reader.pull queue.current.2).1.cursor.time) ::
          (outstanding (reader.pull queue.current.2).1 queue).1,
        (outstanding (reader.pull queue.current.2).1 queue).2) := by
  rw [outstanding, outstanding, Reader.drain_eq_resolve, Reader.resolve_of_pull_some found,
    Reader.drain_eq_resolve]
  rfl

/-- Without a message the reader turns to the next chunk, and nothing is passed over. -/
theorem outstanding_enter {reader : Reader} {ring : Ring} {kind : ChunkKind} {data : List UInt8}
    {later : List (ChunkKind × List UInt8)} (dry : (reader.pull queue.current.2).2 = none)
    (waiting : queue.pending = (kind, data) :: later) (current : ring.current.2 = data) :
    outstanding (enter (reader.pull queue.current.2).1 ring kind).reader
        ⟨(some kind, data), later⟩ =
      outstanding reader queue := by
  have drained := drain_of_pull_none dry
  have clear : (reader.pull queue.current.2).1.decoder.held = none := by
    have held := reader.held_drain queue.current.2
    rwa [drained] at held
  rw [outstanding, outstanding, drained, waiting, Reader.goOn_cons ([], _)]
  subst current
  cases kind with
  | packet =>
    have turned := Reader.readPacket_eq_drain_start clear ring.current.2
    simp only [Reader.goOn, Reader.readChunks, Reader.readChunk, turned, List.append_nil,
      List.nil_append]
    rfl
  | continuation =>
    simp only [Reader.goOn, Reader.readChunks, Reader.readChunk, List.append_nil,
      List.nil_append]
    rfl

/-- A reader that has run dry in front of an empty ring has nothing left to read. -/
theorem outstanding_of_last {reader : Reader} (dry : (reader.pull queue.current.2).2 = none)
    (nothing : queue.pending = []) :
    outstanding reader queue = ([], (reader.pull queue.current.2).1) := by
  rw [outstanding, drain_of_pull_none dry, nothing]
  rfl

/-- With nothing queued there is nothing to be found. -/
theorem outstanding_empty {reader : Reader} (clear : reader.decoder.held = none) :
    outstanding reader .empty = ([], reader) := by
  have unread : reader.cursor.unread [] = [] := by simp [Cursor.unread]
  rw [outstanding, Reader.drain_eq_resolve, show ChunkQueue.empty.current.2 = [] from rfl, unread,
    Reader.resolve_nil reader clear]
  rfl

/-- The message that a pull has found, with its time. -/
def found? (pulled : BufferedReader × Option Event) : Option (Message × Nat) :=
  pulled.2.map (·.message, pulled.1.time)

/-- What a pull does to the outstanding messages: it takes the first one away, and answers
without a message only if there is none. -/
structure Pulled (before : List (Message × Nat) × Reader) (pulled : BufferedReader × Option Event)
    (queue : ChunkQueue) : Prop where
  holds : pulled.1.ring.Holds queue
  first : before =
    ((found? pulled).toList ++ (outstanding pulled.1.reader queue).1,
      (outstanding pulled.1.reader queue).2)
  dry : pulled.2 = none → before.1 = []

/-- A pull from the bytes of the ring is a pull from the queue that they hold. -/
theorem exists_pulled (holds : buffered.ring.Holds queue) :
    ∃ next, Pulled (outstanding buffered.reader queue) buffered.pull next := by
  fun_induction pull buffered generalizing queue with
  | case1 buffered reader event equation =>
    rw [chunk, holds.current_eq] at equation
    have found : (buffered.reader.pull queue.current.2).2 = some event := by rw [equation]
    have first := outstanding_of_found found
    rw [equation] at first
    exact ⟨queue, holds, first, by simp⟩
  | case2 buffered reader equation last =>
    rw [chunk, holds.current_eq] at equation
    -- The ring is empty, so the reader has read everything.
    obtain ⟨after, popped⟩ := holds.pop_eq
    obtain ⟨nothing, empty⟩ := ChunkQueue.pending_of_pop_none (popped.symm.trans last)
    rw [empty] at after
    have dry : (buffered.reader.pull queue.current.2).2 = none := by rw [equation]
    have left := outstanding_of_last dry nothing
    have clear := held_outstanding buffered.reader queue
    rw [left, equation] at clear
    rw [left, equation]
    refine ⟨.empty, after, ?_, fun _ => rfl⟩
    rw [outstanding_empty clear]
    rfl
  | case3 buffered reader equation kind found ih =>
    rw [chunk, holds.current_eq] at equation
    obtain ⟨after, popped⟩ := holds.pop_eq
    obtain ⟨data, later, waiting, next⟩ := ChunkQueue.exists_of_pop_some (popped.symm.trans found)
    rw [next] at after
    have dry : (buffered.reader.pull queue.current.2).2 = none := by rw [equation]
    have current : buffered.ring.pop.1.current.2 = data := by rw [after.current_eq]
    have turned := outstanding_enter dry waiting current
    rw [equation] at turned
    rw [← turned]
    exact ih ((ring_enter _ _ _).symm ▸ after)

/-- The messages that pulls have found, with their times. -/
def foundIn (pulls : List (BufferedReader × Option Event)) : List (Message × Nat) :=
  pulls.filterMap found?

/-- Pulling until nothing is found brings all that is outstanding. -/
theorem foundIn_pulls (holds : buffered.ring.Holds queue) :
    foundIn buffered.pulls = (outstanding buffered.reader queue).1 := by
  fun_induction pulls buffered generalizing queue with
  | case1 buffered dry =>
    obtain ⟨next, pulled⟩ := exists_pulled holds
    rw [pulled.dry dry]
    simp [foundIn, found?, dry]
  | case2 buffered event found ih =>
    obtain ⟨next, pulled⟩ := exists_pulled holds
    have rest := ih pulled.holds
    rw [pulled.first, ← rest]
    simp [foundIn, found?, found]

/-! ## Runs -/

/-- Carry out a call. -/
def perform (buffered : BufferedReader) : BufferCall → BufferedReader × BufferAnswer
  | .push data kind => ((buffered.push data kind).1, .pushed (buffered.push data kind).2)
  | .pull => (buffered.pull.1, .pulled (found? buffered.pull))

/-- Carry out calls one after the other. -/
def run (buffered : BufferedReader) : List BufferCall → BufferedReader × List BufferAnswer
  | [] => (buffered, [])
  | call :: later =>
    let (next, answer) := buffered.perform call
    let (final, answers) := next.run later
    (final, answer :: answers)

/-- All messages of a run that goes on until nothing is left. -/
def messagesOfRun (buffered : BufferedReader) (calls : List BufferCall) : List (Message × Nat) :=
  (buffered.run calls).2.filterMap BufferAnswer.found? ++ foundIn (buffered.run calls).1.pulls

/-- A chunk that is accepted comes behind all that is outstanding. -/
theorem outstanding_push {data : List UInt8} {kind : ChunkKind}
    (holds : buffered.ring.Holds queue) (accepted : (buffered.push data kind).2 = true) :
    ∃ next, (buffered.push data kind).1.ring.Holds next ∧
      Alike (outstanding (buffered.push data kind).1.reader next)
        (Reader.goOn (outstanding buffered.reader queue) [(kind, data)]) := by
  have clear := held_outstanding buffered.reader queue
  have pushed : buffered.ring.push data kind = ((buffered.push data kind).1.ring, true) :=
    Prod.ext rfl accepted
  obtain ⟨chunks, divides, after⟩ := holds.push_accepted pushed
  have divided := Reader.readChunks_of_divides clear divides
  refine ⟨_, after, ?_⟩
  rw [outstanding, Reader.goOn_append]
  exact divided.behind (outstanding buffered.reader queue).1

/-- A pull adds what it has found to the messages of the later calls. -/
theorem filterMap_found?_pulled (found? : Option (Message × Nat)) (answers : List BufferAnswer) :
    (.pulled found? :: answers).filterMap BufferAnswer.found? =
      found?.toList ++ answers.filterMap BufferAnswer.found? := by
  cases found? with
  | none => rfl
  | some found => rfl

/-- A chunk that is rejected leaves no trace. -/
theorem push_of_rejected {data : List UInt8} {kind : ChunkKind}
    (rejected : (buffered.push data kind).2 = false) : (buffered.push data kind).1 = buffered :=
  congrArg (BufferedReader.mk · buffered.reader) (Ring.Holds.push_rejected (Prod.ext rfl rejected))

/-- The chunks that the ring accepts in the course of a run. -/
def accepted (buffered : BufferedReader) : List BufferCall → List (ChunkKind × List UInt8)
  | [] => []
  | call :: later =>
    let (next, answer) := buffered.perform call
    (if answer = .pushed false then none else call.chunk?).toList ++ next.accepted later

/-- Without a refused push all pushed chunks count. -/
theorem accepted_of_all (buffered : BufferedReader) (calls : List BufferCall)
    (all : .pushed false ∉ (buffered.run calls).2) :
    buffered.accepted calls = calls.filterMap BufferCall.chunk? := by
  induction calls generalizing buffered with
  | nil => rfl
  | cons call later ih =>
    obtain ⟨here, rest⟩ : (buffered.perform call).2 ≠ .pushed false ∧
        .pushed false ∉ ((buffered.perform call).1.run later).2 := by
      simpa [run, eq_comm] using all
    have first : buffered.accepted (call :: later) =
        call.chunk?.toList ++ (buffered.perform call).1.accepted later := by
      simp [accepted, here]
    rw [first, ih _ rest]
    cases call <;> rfl

/-- What a run has found and what is then outstanding is what was outstanding before and what
the ring accepts. -/
theorem run_accepted (buffered : BufferedReader) (calls : List BufferCall)
    (holds : buffered.ring.Holds queue) :
    ∃ final, (buffered.run calls).1.ring.Holds final ∧
      Alike
        ((buffered.run calls).2.filterMap BufferAnswer.found? ++
            (outstanding (buffered.run calls).1.reader final).1,
          (outstanding (buffered.run calls).1.reader final).2)
        (Reader.goOn (outstanding buffered.reader queue) (buffered.accepted calls)) := by
  -- All that waits counts as read in advance: a push adds to that, and a pull takes its first
  -- message.
  induction calls generalizing buffered queue with
  | nil =>
    refine ⟨queue, holds, ?_⟩
    simp only [run, accepted, List.filterMap_nil, Reader.goOn, Reader.readChunks, List.append_nil,
      List.nil_append]
    exact .refl _
  | cons call later ih =>
    cases call with
    | push data kind =>
      cases answer : (buffered.push data kind).2 with
      | true =>
        have more : buffered.accepted (.push data kind :: later) =
            (kind, data) :: (buffered.push data kind).1.accepted later := by
          simp [accepted, perform, answer, BufferCall.chunk?]
        obtain ⟨next, after, alike⟩ := outstanding_push holds answer
        obtain ⟨final, done, rest⟩ := ih _ after
        refine ⟨final, done, rest.trans ?_⟩
        rw [more, Reader.goOn_cons]
        exact alike.goOn (held_outstanding _ _) _
      | false =>
        have same := push_of_rejected answer
        have none : buffered.accepted (.push data kind :: later) = buffered.accepted later := by
          simp [accepted, perform, answer, same]
        obtain ⟨final, done, rest⟩ := ih _ holds
        rw [none]
        refine ⟨final, ?_, ?_⟩
        · rwa [run, perform, same]
        · rwa [run, perform, same]
    | pull =>
      have none : buffered.accepted (.pull :: later) = buffered.pull.1.accepted later := by
        simp [accepted, perform, BufferCall.chunk?]
      obtain ⟨next, pulled⟩ := exists_pulled holds
      obtain ⟨final, done, rest⟩ := ih _ pulled.holds
      have answers : (buffered.run (.pull :: later)).2.filterMap BufferAnswer.found? =
          (found? buffered.pull).toList ++
            (buffered.pull.1.run later).2.filterMap BufferAnswer.found? :=
        filterMap_found?_pulled _ _
      refine ⟨final, done, ?_⟩
      rw [answers, none, pulled.first, List.append_assoc]
      have behind := rest.behind (found? buffered.pull).toList
      rwa [← Reader.goOn_behind] at behind

/-- The messages of a run are those that were outstanding before and those that the accepted
chunks bring. -/
theorem messagesOfRun_eq (holds : buffered.ring.Holds queue) (calls : List BufferCall) :
    buffered.messagesOfRun calls =
      (Reader.goOn (outstanding buffered.reader queue) (buffered.accepted calls)).1 := by
  obtain ⟨final, done, found⟩ := run_accepted buffered calls holds
  rw [messagesOfRun, foundIn_pulls done]
  exact found.messages

/-- What a run has found and what is then outstanding is what was outstanding before and what
its calls push. -/
theorem run_spec (buffered : BufferedReader) (calls : List BufferCall)
    (holds : buffered.ring.Holds queue) (accepted : .pushed false ∉ (buffered.run calls).2) :
    ∃ final, (buffered.run calls).1.ring.Holds final ∧
      Alike
        ((buffered.run calls).2.filterMap BufferAnswer.found? ++
            (outstanding (buffered.run calls).1.reader final).1,
          (outstanding (buffered.run calls).1.reader final).2)
        (Reader.goOn (outstanding buffered.reader queue) (calls.filterMap BufferCall.chunk?)) := by
  rw [← buffered.accepted_of_all calls accepted]
  exact run_accepted buffered calls holds

/-- Reading packets through a ring, in any parts and with pulls at any time, brings the messages
that the packets bring one by one, each at its time. -/
theorem messagesOfRun_eq_readPackets (capacity : Nat) (even : capacity % 2 = 0) (large : 4 ≤ capacity)
    (packets : List (List UInt8)) (groups : List (List (ChunkKind × List UInt8)))
    (portions : List.Forall₂ Reader.Portions packets groups) (calls : List BufferCall)
    (pushed : calls.filterMap BufferCall.chunk? = groups.flatten)
    (accepted : .pushed false ∉ ((ofRing (.empty capacity)).run calls).2) :
    (ofRing (.empty capacity)).messagesOfRun calls = (Reader.initial.readPackets packets).1 := by
  have clear : Reader.initial.decoder.held = none := rfl
  have start : (ofRing (.empty capacity)).ring.Holds .empty := Ring.holds_empty even large
  obtain ⟨final, holds, found⟩ := run_spec _ calls start accepted
  have nothing : outstanding Reader.initial .empty = ([], Reader.initial) :=
    outstanding_empty clear
  have whole := Reader.readChunks_of_forall_portions clear portions
  calc (ofRing (.empty capacity)).messagesOfRun calls
    _ = ((ofRing (.empty capacity)).run calls).2.filterMap BufferAnswer.found? ++
          (outstanding ((ofRing (.empty capacity)).run calls).1.reader final).1 := by
        rw [messagesOfRun, foundIn_pulls holds]
    _ = (Reader.goOn (outstanding Reader.initial .empty)
          (calls.filterMap BufferCall.chunk?)).1 := found.messages
    _ = (Reader.initial.readChunks groups.flatten).1 := by
        rw [nothing, pushed]
        rfl
    _ = (Reader.initial.readPackets packets).1 := whole.messages

/-- A malformed packet, one that is pushed in two parts, and a whole one. The end of a ring of
sixteen bytes cuts the second part of the second packet between a time byte and its status. -/
def splitCalls : List BufferCall :=
  [.push [0x10] .packet, .pull, .push [0x80, 0x82, 0xF0] .packet, .pull,
    .push [0x01, 0x83, 0xF7] .continuation, .pull, .push [0x80, 0x84, 0xFA] .packet]

/-- Three packets in a ring of 16 bytes, the second one in two chunks, with pulls in between. One of
the pulls comes before the message is complete. -/
theorem messagesOfRun_eq_readPackets_splitCalls :
    16 % 2 = 0 ∧ 4 ≤ 16 ∧
      List.Forall₂ Reader.Portions
        [[0x10], [0x80, 0x82, 0xF0, 0x01, 0x83, 0xF7], [0x80, 0x84, 0xFA]]
        [[(.packet, [0x10])],
          [(.packet, [0x80, 0x82, 0xF0]), (.continuation, [0x01, 0x83, 0xF7])],
          [(.packet, [0x80, 0x84, 0xFA])]] ∧
      ((ofRing (.empty 16)).run splitCalls).2 =
        [.pushed true, .pulled none, .pushed true, .pulled none, .pushed true,
          .pulled (some (.sysEx ⟨[0xF0, 0x01, 0xF7], .first, true, true⟩, 3)), .pushed true] ∧
      (ofRing (.empty 16)).messagesOfRun splitCalls =
        [(.sysEx ⟨[0xF0, 0x01, 0xF7], .first, true, true⟩, 3),
          (.realTime ⟨0xFA, .first⟩, 4)] := by
  have portions : List.Forall₂ Reader.Portions
      [[0x10], [0x80, 0x82, 0xF0, 0x01, 0x83, 0xF7], [0x80, 0x84, 0xFA]]
      [[(.packet, [0x10])],
        [(.packet, [0x80, 0x82, 0xF0]), (.continuation, [0x01, 0x83, 0xF7])],
        [(.packet, [0x80, 0x84, 0xFA])]] :=
    .cons (.whole _)
      (.cons (.parts [0x80, 0x82, 0xF0] [[0x01, 0x83, 0xF7]] (by decide))
        (.cons (.whole _) .nil))
  have answers : ((ofRing (.empty 16)).run splitCalls).2 =
      [.pushed true, .pulled none, .pushed true, .pulled none, .pushed true,
        .pulled (some (.sysEx ⟨[0xF0, 0x01, 0xF7], .first, true, true⟩, 3)), .pushed true] := by
    decide +kernel
  refine ⟨by decide, by decide, portions, answers, ?_⟩
  rw [messagesOfRun_eq_readPackets 16 (by decide) (by decide) _ _ portions splitCalls rfl
    (by rw [answers]; decide)]
  decide +kernel

end BufferedReader

end MidiTransport.Ble
