import MidiTransport.Proofs.Patchbay.Exclusivity

/-!
# Deliveries and the questions about locks

Whether a lock is in the way of a message can be asked of a pipe, of a source and by an attempt
to lock. A delivery asks the sinks that its source reaches, while a pipe looks for the source and
the sink at the starts of its two chains. In a wired graph both chains lead back to the ends
whose lists the pipe lies in, so all of them agree (`Wired.isBlocked_eq`,
`lock_snd_eq_canWrite`), and a delivery can be told pipe by pipe (`Delivers`).
-/

namespace MidiTransport.Patchbay.Graph

variable {graph : Graph} {pipe : Pipe} {source other : Source} {sink : Sink} {cable : Cable}
  {message : Message} {outs : Source → List Pipe} {ins : Sink → List Pipe}

/-- Is a pipe connected at both of its ends? -/
def isThrough (graph : Graph) (pipe : Pipe) : Bool :=
  (graph.inlet pipe).isSome && (graph.outlet pipe).isSome

/-- What a delivery comes to, told by the pipes of its source. -/
structure Delivers (graph : Graph) (source : Source) (message : Message) : Prop where
  /-- The sinks of the pipes that are not blocked, the pipe connected last in front. -/
  received : (graph.dispatch source message).2 =
    (((graph.outChain source).filter fun pipe =>
      message.isRealTime || !graph.isBlocked pipe message.cable).filterMap graph.sinkOf).reverse
  /-- The pipes that are blocked have been counted, and all else is as it was. -/
  behind : (graph.dispatch source message).1 =
    { graph with
      dropped := graph.dropped +
        if message.isRealTime then 0
        else (graph.outChain source).countP fun pipe =>
          graph.isThrough pipe && graph.isBlocked pipe message.cable }
  /-- Every way to a sink is either used or counted. -/
  total : (graph.dispatch source message).1.dropped + (graph.dispatch source message).2.length =
    graph.dropped + (graph.sinksOf source).length
  writable : message.isRealTime = false →
    (graph.canWrite source message.cable = true ↔
      (graph.dispatch source message).1.dropped = graph.dropped)

/-! ## The same question in different places -/

/-- A source can write if no sink that it reaches is locked by another one. -/
theorem canWrite_eq_true_iff :
    graph.canWrite source cable = true ↔
      ∀ sink ∈ graph.sinksOf source, graph.lockedByOther sink cable (some source) = false := by
  simp [canWrite]

/-- A source gets its locks where it can write. -/
theorem lock_snd_eq_canWrite (graph : Graph) (source : Source) (cable : Cable) :
    (graph.lock source cable).2 = graph.canWrite source cable := by
  have free : graph.canWrite source cable =
      !(graph.sinksOf source).any (graph.lockedByOther · cable (some source)) :=
    List.not_any_eq_all_not.symm
  rw [free, lock]
  cases (graph.sinksOf source).any (graph.lockedByOther · cable (some source)) <;> rfl

/-- A source that has locked a cable leaves it to nobody else at the sinks that it reaches. -/
theorem canWrite_of_locked (done : (graph.lock source cable).2 = true) (apart : other ≠ source)
    (mine : sink ∈ graph.sinksOf source) (shared : sink ∈ graph.sinksOf other) :
    (graph.lock source cable).1.canWrite other cable = false := by
  rw [← Bool.not_eq_true, canWrite_eq_true_iff, (graph.sameLinks_lock source cable).sinksOf]
  intro free
  have owned := lockOwner_lock done mine
  exact apart (lockedByOther_eq_false_iff.mp (free sink shared) source owned).symm

/-- A source can write where nothing is held off from its sinks. -/
theorem canWrite_iff_dropped (loud : message.isRealTime = false) :
    graph.canWrite source message.cable = true ↔
      (graph.dispatch source message).1.dropped = graph.dropped := by
  rw [canWrite_eq_true_iff, dropped_dispatch, Nat.add_eq_left, List.countP_eq_zero]
  simp [admits, loud]

/-- A delivery serves or counts each sink that the source reaches. -/
theorem dropped_add_length (graph : Graph) (source : Source) (message : Message) :
    (graph.dispatch source message).1.dropped + (graph.dispatch source message).2.length =
      graph.dropped + (graph.sinksOf source).length := by
  have parts := List.length_eq_countP_add_countP (graph.admits source message)
    (l := graph.sinksOf source)
  simp only [Bool.not_eq_true, Bool.decide_eq_false] at parts
  rw [dropped_dispatch, dispatch_snd, ← List.countP_eq_length_filter, List.countP_reverse]
  omega

/-! ## Pipes -/

namespace Wired

/-- A pipe of a source is blocked if somebody else has locked its sink. -/
theorem isBlocked_eq (wired : graph.Wired outs ins) (member : pipe ∈ outs source)
    (leads : graph.sinkOf pipe = some sink) :
    graph.isBlocked pipe cable = graph.lockedByOther sink cable (some source) := by
  rw [isBlocked, leads, (wired.spells.sourceOf pipe source).mpr member]

/-- The sink of a pipe admits a message if the pipe is not blocked. -/
theorem admits_eq (wired : graph.Wired outs ins) (member : pipe ∈ outs source)
    (leads : graph.sinkOf pipe = some sink) :
    graph.admits source message sink =
      (message.isRealTime || !graph.isBlocked pipe message.cable) := by
  rw [admits, wired.isBlocked_eq member leads]

/-- A pipe leads to a sink if its outlet hangs on anything. -/
theorem isSome_sinkOf (wired : graph.Wired outs ins) (pipe : Pipe) :
    (graph.sinkOf pipe).isSome = (graph.outlet pipe).isSome := by
  rw [Bool.eq_iff_iff, Option.isSome_iff_exists, Option.isSome_iff_exists]
  constructor
  · rintro ⟨sink, leads⟩
    have member := (wired.spells.sinkOf pipe sink).mp leads
    have bound := (wired.inward.strung sink).back_isSome member
    simpa [inSide, Option.ne_none_iff_exists'] using bound
  · rintro ⟨place, hangs⟩
    have back : graph.inSide.back pipe = some place.hook := by simp [inSide, hangs]
    obtain ⟨sink, member⟩ := wired.inward.exists_mem_of_back back
    exact ⟨sink, (wired.spells.sinkOf pipe sink).mpr member⟩

/-- Of the pipes of a source, those that lead to a sink are connected at both ends. -/
theorem isThrough_eq (wired : graph.Wired outs ins) (member : pipe ∈ outs source) :
    graph.isThrough pipe = (graph.sinkOf pipe).isSome := by
  have bound := (wired.outward.strung source).back_isSome member
  have connected : (graph.inlet pipe).isSome = true := by
    simpa [outSide, ← Option.isSome_iff_ne_none] using bound
  rw [isThrough, connected, wired.isSome_sinkOf, Bool.true_and]

/-- A message goes through the pipes of its source that are not blocked, in order, and a real-time
message through all of them. -/
theorem received_dispatch (wired : graph.Wired outs ins) (source : Source) (message : Message) :
    (graph.dispatch source message).2 =
      (((outs source).filter fun pipe =>
        message.isRealTime || !graph.isBlocked pipe message.cable).filterMap
          graph.sinkOf).reverse := by
  rw [dispatch_snd, wired.spells.sinksOf, List.filter_reverse, List.filter_filterMap,
    List.filterMap_filter]
  refine congrArg List.reverse (List.filterMap_congr fun pipe member => ?_)
  cases leads : graph.sinkOf pipe with
  | none => simp
  | some sink => rw [← wired.admits_eq member leads, Option.filter_some]

/-- Only messages that stop at a lock are counted, one for each pipe. -/
theorem held_dispatch (wired : graph.Wired outs ins) (source : Source) (message : Message) :
    (graph.dispatch source message).1.dropped = graph.dropped +
      if message.isRealTime then 0
      else (outs source).countP fun pipe =>
        graph.isThrough pipe && graph.isBlocked pipe message.cable := by
  rw [dropped_dispatch]
  refine congrArg (graph.dropped + ·) ?_
  cases quiet : message.isRealTime with
  | true => simp [admits, quiet]
  | false =>
    rw [wired.spells.sinksOf, List.countP_filterMap]
    refine List.countP_congr fun pipe member => ?_
    rw [wired.isThrough_eq member]
    cases leads : graph.sinkOf pipe with
    | none => simp
    | some sink => simp [wired.admits_eq member leads, quiet]

/-- Dispatching delivers as the locks allow. -/
theorem delivers (wired : graph.Wired outs ins) (source : Source) (message : Message) :
    graph.Delivers source message where
  received := by
    rw [wired.outChain_eq]
    exact wired.received_dispatch source message
  behind := by
    rw [wired.outChain_eq, ← wired.held_dispatch source message]
    rfl
  total := graph.dropped_add_length source message
  writable := canWrite_iff_dropped

end Wired

/-- In every run, a delivery serves the sinks of those pipes of its source that are not blocked,
counts the others and changes nothing else. A source can write exactly if it would get its locks.
Once it has got them, nobody else can write who shares a sink with it. -/
theorem deliveries_of_run (operations : List Operation) :
    (∀ source message, (run operations).Delivers source message) ∧
    (∀ source cable,
      (run operations).canWrite source cable = ((run operations).lock source cable).2) ∧
    ∀ source cable, ((run operations).lock source cable).2 = true →
      ∀ other, other ≠ source → ∀ sink ∈ (run operations).sinksOf source,
        sink ∈ (run operations).sinksOf other →
        ((run operations).lock source cable).1.canWrite other cable = false := by
  obtain ⟨outs, ins, wired⟩ := run_wired operations
  refine ⟨wired.delivers, ?_, ?_⟩
  · intro source cable
    exact (lock_snd_eq_canWrite _ source cable).symm
  · intro source cable done other apart sink mine shared
    exact canWrite_of_locked done apart mine shared

/-- Behind a lock of the first of two sources with a common sink, a message of the second one is
held off there and goes to a sink of its own, and a real-time message goes to both. A pipe without
a sink counts for nothing. -/
theorem deliveries_of_run_sharedSink :
    let calls : List Operation := sharedSinkCalls ++
      [.addSink, .addPipe, .addPipe, .connect ⟨1⟩ ⟨3⟩ ⟨1⟩, .connectInlet ⟨1⟩ ⟨4⟩]
    let locked := calls ++ [.lock ⟨0⟩ .first]
    let note : Message := .channel ⟨0x90, 0x40, 0x41, .first⟩
    ((run calls).lock ⟨0⟩ .first).2 = true ∧
      ((run calls).lock ⟨0⟩ .first).1.canWrite ⟨1⟩ .first = false ∧
      (run locked).Delivers ⟨1⟩ note ∧
      ((run locked).dispatch ⟨1⟩ note).2 = [⟨1⟩] ∧
      ((run locked).dispatch ⟨1⟩ note).1.dropped = 1 ∧
      ((run locked).dispatch ⟨1⟩ (.realTime ⟨0xF8, .first⟩)).2 = [⟨1⟩, ⟨0⟩] := by
  intro calls locked note
  have done : ((run calls).lock ⟨0⟩ .first).2 = true := by decide +kernel
  obtain ⟨-, -, excludes⟩ := deliveries_of_run calls
  obtain ⟨delivers, -⟩ := deliveries_of_run locked
  refine ⟨done, ?_, delivers ⟨1⟩ note, by decide +kernel, by decide +kernel, by decide +kernel⟩
  exact excludes ⟨0⟩ .first done ⟨1⟩ (by decide) ⟨0⟩ (by decide +kernel) (by decide +kernel)

end MidiTransport.Patchbay.Graph
