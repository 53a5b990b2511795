import MidiTransport.Proofs.Ble.RingQueue

/-!
# The room in a ring

A chunk takes its rounded length and one header or two, whatever its layout (`Holds.needed_bounds`).
A pop that finds no chunk leaves nothing but a header that keeps a place, so all bytes that headers,
padding and odd lengths have taken are given back, wherever in the ring the chunks were
(`space_of_run`).
-/

namespace MidiTransport.Ble

/-- The call was a pop, and no chunk was left. -/
def RingAnswer.Dry (answer : RingAnswer) : Prop := answer = .popped none ∨ answer = .taken none

namespace Ring

variable {ring : Ring} {queue : ChunkQueue} {data : List UInt8} {kind : ChunkKind}

/-- Taking a chunk is a pop, and a look at what it has come to. -/
theorem takeChunk_eq_map (ring : Ring) :
    ring.takeChunk = (ring.pop.1, ring.pop.2.map (·, ring.pop.1.current.2)) := by
  unfold takeChunk
  split <;> simp_all

/-! ## Capacity -/

theorem capacity_push (ring : Ring) (data : List UInt8) (kind : ChunkKind) :
    (ring.push data kind).1.capacity = ring.capacity := by
  unfold push
  dsimp only
  split
  · exact Holds.size_place ring data kind _
  · rfl

theorem capacity_pop (ring : Ring) : ring.pop.1.capacity = ring.capacity := by
  fun_induction pop ring with
  | case1 => rfl
  | case2 ring held more next atNext ih => exact ih
  | case3 => exact size_writeChunk _ _ _ _

theorem capacity_perform (ring : Ring) (call : RingCall) :
    (ring.perform call).1.capacity = ring.capacity := by
  cases call with
  | push data kind => exact ring.capacity_push data kind
  | pop => exact ring.capacity_pop
  | current => rfl
  | takeChunk =>
    rw [perform, takeChunk_eq_map]
    exact ring.capacity_pop

/-- Every run keeps the capacity. -/
theorem capacity_run (ring : Ring) (calls : List RingCall) :
    (ring.run calls).1.capacity = ring.capacity := by
  induction calls generalizing ring with
  | nil => rfl
  | cons call later ih => exact (ih _).trans (ring.capacity_perform call)

/-! ## What a chunk takes -/

/-- A push is accepted if the length fits in a header, and all that has to be written in the ring.
-/
theorem push_eq_true_iff :
    (ring.push data kind).2 = true ↔ data.length ≤ maxChunkLength ∧
      ring.occupied + needed data.length (ring.layout data.length) ≤ ring.capacity := by
  unfold push
  dsimp only
  split <;> simp_all

namespace Holds

/-- A chunk takes one header or two, and its rounded length. -/
theorem needed_bounds (holds : ring.Holds queue) (length : Nat) :
    headerLength + roundUp length ≤ needed length (ring.layout length) ∧
      needed length (ring.layout length) ≤ 2 * headerLength + roundUp length := by
  have even := holds.gap_even
  rcases ring.layout_cases_gap length with ⟨-, layout⟩ | ⟨-, layout⟩ | ⟨beyond, -, layout⟩
  · rw [layout, needed, headerLength]
    omega
  · rw [layout, needed, headerLength]
    omega
  · rw [layout, needed, headerLength, roundUp, roundUp]
    omega

/-! ## What is given back -/

/-- The header of the current chunk is never given back. -/
theorem headerLength_le_occupied (holds : ring.Holds queue) : headerLength ≤ ring.occupied :=
  Nat.le_trans (Nat.le_add_right _ _) holds.laid.span_le_occupied

/-- Without any chunk only a header is left. -/
theorem occupied_of_empty (holds : ring.Holds .empty) : ring.occupied = headerLength :=
  holds.laid.occupied_of_nil

/-- A pop that finds nothing leaves a single header. -/
theorem occupied_of_pop_none (holds : ring.Holds queue) (dry : ring.pop.2 = none) :
    ring.pop.1.occupied = headerLength := by
  obtain ⟨after, popped⟩ := holds.pop_eq
  obtain ⟨-, empty⟩ := ChunkQueue.pending_of_pop_none (popped.symm.trans dry)
  rw [empty] at after
  exact after.occupied_of_empty

/-- Taking all chunks leaves a single header. -/
theorem occupied_takeAll (holds : ring.Holds queue) :
    ring.takeAll.2.occupied = headerLength := by
  fun_induction takeAll ring generalizing queue with
  | case1 ring dry => exact holds.occupied_of_pop_none dry
  | case2 ring kind found later final equation ih =>
    rw [equation] at ih
    exact ih holds.pop_eq.1

/-- A call that finds nothing leaves a single header. -/
theorem occupied_perform {call : RingCall} (holds : ring.Holds queue)
    (dry : (ring.perform call).2.Dry) : (ring.perform call).1.occupied = headerLength := by
  cases call with
  | pop =>
    refine holds.occupied_of_pop_none ?_
    simpa [RingAnswer.Dry, Ring.perform] using dry
  | takeChunk =>
    rw [Ring.perform, takeChunk_eq_map] at dry ⊢
    refine holds.occupied_of_pop_none ?_
    simpa [RingAnswer.Dry] using dry
  | _ => simp [RingAnswer.Dry, Ring.perform] at dry

/-- A run that has just found no chunk has given everything back. -/
theorem occupied_run {answer : RingAnswer} (holds : ring.Holds queue) (calls : List RingCall)
    (last : (ring.run calls).2.getLast? = some answer) (dry : answer.Dry) :
    (ring.run calls).1.occupied = headerLength := by
  induction calls generalizing ring queue with
  | nil => cases last
  | cons call later ih =>
    obtain ⟨next, -, after⟩ := holds.perform call
    cases later with
    | nil =>
      obtain rfl : (ring.perform call).2 = answer := Option.some.inj last
      exact holds.occupied_perform dry
    | cons => exact ih after last

end Holds

/-- In a ring from which nothing more can be popped there is room for a chunk with two headers,
where one of them is the one that keeps a place. A chunk with one header always leaves that one
alone. All of this depends on nothing but the capacity, whatever has happened to the ring. -/
theorem space_of_run (capacity : Nat) (even : capacity % 2 = 0) (large : 6 ≤ capacity)
    (calls : List RingCall) :
    let outcome := (empty capacity).run calls
    (∀ answer, outcome.2.getLast? = some answer → answer.Dry → ∀ data kind,
        data.length ≤ min (capacity - 6) 0x3FFF → (outcome.1.push data kind).2 = true) ∧
      (∀ data kind, (outcome.1.push data kind).2 = true →
        data.length ≤ min (capacity - 4) 0x3FFF) ∧
      outcome.1.takeAll.2.occupied = 2 := by
  intro outcome
  have start : (empty capacity).Holds .empty := holds_empty even (by omega)
  obtain ⟨queue, -, holds⟩ : ∃ queue, _ ∧ outcome.1.Holds queue := start.run calls
  have size : outcome.1.capacity = capacity := by
    rw [capacity_run, Ring.capacity, empty, Array.size_replicate]
  refine ⟨fun answer last dry data kind short => ?_, fun data kind accepted => ?_,
    holds.occupied_takeAll⟩
  · have free : outcome.1.occupied = headerLength := start.occupied_run calls last dry
    have upper := (holds.needed_bounds data.length).2
    rw [push_eq_true_iff, size, free]
    simp only [headerLength, roundUp, maxChunkLength] at *
    omega
  · have used := holds.headerLength_le_occupied
    have lower := (holds.needed_bounds data.length).1
    rw [push_eq_true_iff, size] at accepted
    simp only [headerLength, roundUp, maxChunkLength] at *
    omega

/-- Everything is popped from a ring of sixteen bytes that a chunk has gone around. There is then
room for ten bytes, and never for thirteen. -/
theorem space_of_run_wrappingCalls :
    16 % 2 = 0 ∧ 6 ≤ 16 ∧
      ((empty 16).run (wrappingCalls ++ [.takeChunk])).2.getLast? = some (.taken none) ∧
      (((empty 16).run (wrappingCalls ++ [.takeChunk])).1.push (List.replicate 10 7) .packet).2 =
        true ∧
      (((empty 16).run wrappingCalls).1.push (List.replicate 13 7) .packet).2 = false ∧
      ((empty 16).run wrappingCalls).1.takeAll.2.occupied = 2 := by
  have last : ((empty 16).run (wrappingCalls ++ [.takeChunk])).2.getLast? =
      some (.taken none) := by decide +kernel
  obtain ⟨roomy, -, -⟩ := space_of_run 16 (by decide) (by decide) (wrappingCalls ++ [.takeChunk])
  obtain ⟨-, bounded, left⟩ := space_of_run 16 (by decide) (by decide) wrappingCalls
  refine ⟨by decide, by decide, last, roomy _ last (.inr rfl) _ _ (by decide), ?_, left⟩
  exact Bool.eq_false_iff.mpr fun accepted => absurd (bounded _ _ accepted) (by decide)

end Ring

end MidiTransport.Ble
