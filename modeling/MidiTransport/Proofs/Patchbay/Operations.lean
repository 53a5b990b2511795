import MidiTransport.Patchbay.Dispatch
import MidiTransport.Proofs.Patchbay.Rewiring

/-!
# Everything that may be done to a patchbay

An `Operation` is one call that changes a graph, with any numbers, and a run is a list of
calls on a graph that was empty at first. Exchanges of ends exchange lists, and locks and
deliveries have no part in the wiring, so `run_wired` holds: every graph that a run leads to
is wired.
-/

namespace MidiTransport.Patchbay

/-- One call that changes a graph. -/
inductive Operation where
  | addSource
  | addSink
  | addPipe
  | connectInlet (source : Source) (pipe : Pipe)
  | connectOutlet (pipe : Pipe) (sink : Sink)
  | connect (source : Source) (pipe : Pipe) (sink : Sink)
  | connectBoth (sourceA : Source) (sinkA : Sink) (forward backward : Pipe) (sourceB : Source)
    (sinkB : Sink)
  | disconnect (pipe : Pipe)
  | disconnectBoth (forward backward : Pipe)
  | disconnectRoute (source : Source) (sink : Sink)
  | disconnectRouteBackwards (sink : Sink) (source : Source)
  | disconnectSource (source : Source)
  | disconnectSink (sink : Sink)
  | moveSource (source target : Source)
  | swapSources (one other : Source)
  | moveSink (sink target : Sink)
  | swapSinks (one other : Sink)
  | lock (source : Source) (cable : Cable)
  | unlock (source : Source) (cable : Cable)
  | dispatch (source : Source) (message : Message)

namespace Graph

variable {graph : Graph} {pipe : Pipe} {source : Source} {sink : Sink}
  {outs : Source → List Pipe} {ins : Sink → List Pipe}

/-! ## Exchanging -/

/-- Two ends with exchanged first pipes. -/
theorem update_exchange {End : Type} [DecidableEq End] (head : End → Option Pipe)
    (one other : End) :
    Function.update (Function.update head one (head other)) other (head one) =
      fun root => head (exchange one other root) := by
  ext1 root
  by_cases here : root = other
  · subst here
    by_cases same : root = one <;> simp [exchange, same]
  · by_cases there : root = one
    · subst there
      simp [exchange, here]
    · simp [exchange, here, there]

/-- The first pipes of two exchanged chains hang on the other ends. -/
theorem rename_exchange {End : Type} [DecidableEq End] {side : Side End}
    {lists : End → List Pipe} (chained : side.Chained lists) (one other : End) (pipe : Pipe) :
    (if side.head other = some pipe then some (Hook.root one)
      else if side.head one = some pipe then some (Hook.root other) else side.back pipe) =
      (side.back pipe).map (·.rename (exchange one other)) := by
  simp only [chained.head_iff]
  cases hangs : side.back pipe with
  | none => simp
  | some hook =>
    cases hook with
    | pipe before => simp [Hook.rename]
    | root place =>
      by_cases here : place = other
      · subst here
        by_cases same : place = one <;> simp [Hook.rename, exchange, same]
      · by_cases there : place = one
        · subst there
          simp [Hook.rename, exchange, here]
        · simp [Hook.rename, exchange, here, there]

@[simp] theorem inSide_hangInlet (graph : Graph) (place : Inlet) (head : Option Pipe) :
    (graph.hangInlet place head).inSide = graph.inSide := by
  cases head <;> simp [hangInlet]

@[simp] theorem outSide_hangOutlet (graph : Graph) (place : Outlet) (head : Option Pipe) :
    (graph.hangOutlet place head).outSide = graph.outSide := by
  cases head <;> simp [hangOutlet]

theorem frame_hangInlet (graph : Graph) (place : Inlet) (head : Option Pipe) :
    (graph.hangInlet place head).frame = graph.frame := by
  cases head <;> simp [hangInlet]

theorem frame_hangOutlet (graph : Graph) (place : Outlet) (head : Option Pipe) :
    (graph.hangOutlet place head).frame = graph.frame := by
  cases head <;> simp [hangOutlet]

theorem hangOnSource_eq (graph : Graph) (source : Source) (head : Option Pipe) :
    graph.hangOnSource source head = graph.hangInlet (.source source) head := by
  cases head <;> rfl

theorem hangOnSink_eq (graph : Graph) (sink : Sink) (head : Option Pipe) :
    graph.hangOnSink sink head = graph.hangOutlet (.sink sink) head := by
  cases head <;> rfl

namespace Wired

theorem index_lt_of_outHead (wired : graph.Wired outs ins)
    (leads : graph.outHead source = some pipe) : pipe.index < graph.pipes.size :=
  index_lt_of_outBack (wired.outward.head_iff.mp leads)

theorem index_lt_of_inHead (wired : graph.Wired outs ins)
    (leads : graph.inHead sink = some pipe) : pipe.index < graph.pipes.size :=
  index_lt_of_inBack (wired.inward.head_iff.mp leads)

/-- Two sources exchange their lists. -/
theorem exchangeSources {one other : Source} (wired : graph.Wired outs ins)
    (knownOne : graph.knowsSource one = true) (knownOther : graph.knowsSource other = true) :
    (graph.exchangeSources one other).Wired (fun source => outs (exchange one other source))
      ins := by
  have stillKnown :
      (graph.setOutHead one (graph.outHead other)).knowsSource other = true :=
    (knowsSource_of_frame (frame_setOutHead graph one _) other).trans knownOther
  constructor
  · suffices sides : (graph.exchangeSources one other).outSide =
        graph.outSide.exchange one other by
      rw [sides]
      exact wired.outward.exchange one other
    unfold Graph.exchangeSources
    dsimp only
    change (Graph.hangOnSource _ _ _).outSide = _
    rw [hangOnSource_eq, hangOnSource_eq, outSide_hangInlet, outSide_hangInlet,
      outSide_setOutHead stillKnown, outSide_setOutHead knownOne]
    · refine Side.ext (update_exchange graph.outHead one other) rfl ?_
      ext1 pipe
      exact rename_exchange wired.outward one other pipe
    · intro pipe leads
      rw [exists_links_iff]
      exact wired.index_lt_of_outHead leads
    · intro pipe leads
      rw [exists_links_iff, size_of_frame (frame_hangInlet _ _ _)]
      exact wired.index_lt_of_outHead leads
  · have same : (graph.exchangeSources one other).inSide = graph.inSide := by
      unfold Graph.exchangeSources
      dsimp only
      change (Graph.hangOnSource _ _ _).inSide = _
      simp [hangOnSource_eq]
    rw [same]
    exact wired.inward

/-- Two sinks exchange their lists. -/
theorem exchangeSinks {one other : Sink} (wired : graph.Wired outs ins)
    (knownOne : graph.knowsSink one = true) (knownOther : graph.knowsSink other = true) :
    (graph.exchangeSinks one other).Wired outs fun sink => ins (exchange one other sink) := by
  have stillKnown : (graph.setInHead one (graph.inHead other)).knowsSink other = true :=
    (knowsSink_of_frame (frame_setInHead graph one _) other).trans knownOther
  constructor
  · have same : (graph.exchangeSinks one other).outSide = graph.outSide := by
      unfold Graph.exchangeSinks
      dsimp only
      change (Graph.hangOnSink _ _ _).outSide = _
      simp [hangOnSink_eq]
    rw [same]
    exact wired.outward
  · suffices sides : (graph.exchangeSinks one other).inSide =
        graph.inSide.exchange one other by
      rw [sides]
      exact wired.inward.exchange one other
    unfold Graph.exchangeSinks
    dsimp only
    change (Graph.hangOnSink _ _ _).inSide = _
    rw [hangOnSink_eq, hangOnSink_eq, inSide_hangOutlet, inSide_hangOutlet,
      inSide_setInHead stillKnown, inSide_setInHead knownOne]
    · refine Side.ext (update_exchange graph.inHead one other) rfl ?_
      ext1 pipe
      exact rename_exchange wired.inward one other pipe
    · intro pipe leads
      rw [exists_links_iff]
      exact wired.index_lt_of_inHead leads
    · intro pipe leads
      rw [exists_links_iff, size_of_frame (frame_hangOutlet _ _ _)]
      exact wired.index_lt_of_inHead leads

end Wired

/-! ## Locks -/

theorem sameLinks_addLock (graph : Graph) (source : Source) (cable : Cable) (sink : Sink) :
    graph.SameLinks (graph.addLock source cable sink) := by
  unfold addLock
  split <;> exact ⟨rfl, rfl, rfl⟩

theorem sameLinks_addLocks (graph : Graph) (source : Source) (cable : Cable) (sinks : List Sink) :
    graph.SameLinks (sinks.foldl (·.addLock source cable ·) graph) := by
  induction sinks generalizing graph with
  | nil => exact .refl graph
  | cons sink rest ih => exact (graph.sameLinks_addLock source cable sink).trans (ih _)

theorem sameLinks_lock (graph : Graph) (source : Source) (cable : Cable) :
    graph.SameLinks (graph.lock source cable).1 := by
  unfold lock
  dsimp only
  split
  · exact .refl graph
  · exact graph.sameLinks_addLocks source cable _

theorem sameLinks_unlock (graph : Graph) (source : Source) (cable : Cable) :
    graph.SameLinks (graph.unlock source cable) :=
  ⟨rfl, rfl, rfl⟩

theorem sameLinks_dispatch (graph : Graph) (source : Source) (message : Message) :
    graph.SameLinks (graph.dispatch source message).1 :=
  ⟨rfl, rfl, rfl⟩

/-- Calls that change no link leave the lists alone. -/
theorem Wired.of_sameLinks {next : Graph} (wired : graph.Wired outs ins)
    (same : graph.SameLinks next) : next.Wired outs ins :=
  wired.of_sides same.outSide same.inSide

/-! ## Attempts to exchange -/

/-- The sources that a move has found are there when it exchanges them, so it fails at what it asks
for first or not at all. -/
theorem moveSource_eq (graph : Graph) (source target : Source) :
    graph.moveSource source target =
      graph.proceed
        (do
          graph.requireSource source
          graph.requireSource target
          if (graph.outHead target).isSome && source != target then throw (.sourceTaken target))
        (graph.exchangeSources source target) := by
  refine proceed_again fun condition => ?_
  rw [bind_eq_ok_iff, bind_eq_ok_iff] at condition
  obtain ⟨foundSource, foundTarget, -⟩ := condition
  exact bind_eq_ok_iff.mpr ⟨foundSource, foundTarget⟩

/-- A move that fails has exchanged nothing. -/
theorem moveSource_of_failed {target : Source}
    (failed : (graph.moveSource source target).2 ≠ .ok ()) :
    (graph.moveSource source target).1 = graph := by
  rw [moveSource_eq] at failed ⊢
  exact proceed_of_failed failed

/-- The sinks that a move has found are there when it exchanges them, so it fails at what it asks
for first or not at all. -/
theorem moveSink_eq (graph : Graph) (sink target : Sink) :
    graph.moveSink sink target =
      graph.proceed
        (do
          graph.requireSink sink
          graph.requireSink target
          if (graph.inHead target).isSome && sink != target then throw (.sinkTaken target))
        (graph.exchangeSinks sink target) := by
  refine proceed_again fun condition => ?_
  rw [bind_eq_ok_iff, bind_eq_ok_iff] at condition
  obtain ⟨foundSink, foundTarget, -⟩ := condition
  exact bind_eq_ok_iff.mpr ⟨foundSink, foundTarget⟩

/-- A move that fails has exchanged nothing. -/
theorem moveSink_of_failed {target : Sink} (failed : (graph.moveSink sink target).2 ≠ .ok ()) :
    (graph.moveSink sink target).1 = graph := by
  rw [moveSink_eq] at failed ⊢
  exact proceed_of_failed failed

namespace Wired

/-- A successful exchange gives each of two sources the list of the other one. -/
theorem swapSources {one other : Source} (wired : graph.Wired outs ins)
    (done : (graph.swapSources one other).2 = .ok ()) :
    (graph.swapSources one other).1.Wired (fun source => outs (exchange one other source)) ins := by
  rw [Graph.swapSources, proceed_snd] at done
  rw [Graph.swapSources, proceed_fst done]
  rw [bind_eq_ok_iff, requireSource_eq_ok_iff, requireSource_eq_ok_iff] at done
  exact wired.exchangeSources done.1 done.2

theorem swapSinks {one other : Sink} (wired : graph.Wired outs ins)
    (done : (graph.swapSinks one other).2 = .ok ()) :
    (graph.swapSinks one other).1.Wired outs fun sink => ins (exchange one other sink) := by
  rw [Graph.swapSinks, proceed_snd] at done
  rw [Graph.swapSinks, proceed_fst done]
  rw [bind_eq_ok_iff, requireSink_eq_ok_iff, requireSink_eq_ok_iff] at done
  exact wired.exchangeSinks done.1 done.2

/-- A successful move gives the target the list of the source. -/
theorem moveSource {target : Source} (wired : graph.Wired outs ins)
    (done : (graph.moveSource source target).2 = .ok ()) :
    (graph.moveSource source target).1.Wired (fun other => outs (exchange source target other))
      ins := by
  rw [moveSource_eq, proceed_snd] at done
  rw [moveSource_eq, proceed_fst done]
  rw [bind_eq_ok_iff, bind_eq_ok_iff, requireSource_eq_ok_iff, requireSource_eq_ok_iff] at done
  exact wired.exchangeSources done.1 done.2.1

theorem moveSink {target : Sink} (wired : graph.Wired outs ins)
    (done : (graph.moveSink sink target).2 = .ok ()) :
    (graph.moveSink sink target).1.Wired outs fun other => ins (exchange sink target other) := by
  rw [moveSink_eq, proceed_snd] at done
  rw [moveSink_eq, proceed_fst done]
  rw [bind_eq_ok_iff, bind_eq_ok_iff, requireSink_eq_ok_iff, requireSink_eq_ok_iff] at done
  exact wired.exchangeSinks done.1 done.2.1

end Wired

/-! ## Runs -/

/-- The graph behind a call, whether the call succeeds or fails. -/
def apply (graph : Graph) : Operation → Graph
  | .addSource => graph.addSource.1
  | .addSink => graph.addSink.1
  | .addPipe => graph.addPipe.1
  | .connectInlet source pipe => (graph.connectInlet source pipe).1
  | .connectOutlet pipe sink => (graph.connectOutlet pipe sink).1
  | .connect source pipe sink => (graph.connect source pipe sink).1
  | .connectBoth sourceA sinkA forward backward sourceB sinkB =>
    (graph.connectBoth sourceA sinkA forward backward sourceB sinkB).1
  | .disconnect pipe => (graph.disconnect pipe).1
  | .disconnectBoth forward backward => (graph.disconnectBoth forward backward).1
  | .disconnectRoute source sink => (graph.disconnectRoute source sink).1
  | .disconnectRouteBackwards sink source => (graph.disconnectRouteBackwards sink source).1
  | .disconnectSource source => graph.disconnectSource source
  | .disconnectSink sink => graph.disconnectSink sink
  | .moveSource source target => (graph.moveSource source target).1
  | .swapSources one other => (graph.swapSources one other).1
  | .moveSink sink target => (graph.moveSink sink target).1
  | .swapSinks one other => (graph.swapSinks one other).1
  | .lock source cable => (graph.lock source cable).1
  | .unlock source cable => graph.unlock source cable
  | .dispatch source message => (graph.dispatch source message).1

/-- The graph behind several calls, one after the other. -/
def applyAll (graph : Graph) (operations : List Operation) : Graph :=
  operations.foldl apply graph

/-- The graph behind several calls on a graph that was empty at first. -/
def run (operations : List Operation) : Graph := Graph.empty.applyAll operations

/-- The links spell some lists of pipes. -/
def IsWired (graph : Graph) : Prop := ∃ outs ins, graph.Wired outs ins

namespace IsWired

/-- Of an attempt, only the success needs a look. -/
theorem attempt {condition : Except WiringError Unit} {next : Graph} (wired : graph.IsWired)
    (success : (graph.proceed condition next).2 = .ok () →
      (graph.proceed condition next).1.IsWired) :
    (graph.proceed condition next).1.IsWired := by
  rcases proceed_cases graph condition next with done | same
  · exact success done
  · rw [same]
    exact wired

/-- Connecting keeps a graph wired, whether it succeeds or fails. -/
theorem connect (wired : graph.IsWired) (source : Source) (pipe : Pipe) (sink : Sink) :
    (graph.connect source pipe sink).1.IsWired := by
  obtain ⟨outs, ins, spelled⟩ := id wired
  by_cases done : (graph.connect source pipe sink).2 = .ok ()
  · exact ⟨_, _, spelled.connect done⟩
  · rw [connect_of_failed done]
    exact wired

/-- Connecting two directions keeps a graph wired, also when only one of them is connected. -/
theorem connectBoth (wired : graph.IsWired) (sourceA : Source) (sinkA : Sink)
    (forward backward : Pipe) (sourceB : Source) (sinkB : Sink) :
    (graph.connectBoth sourceA sinkA forward backward sourceB sinkB).1.IsWired := by
  rcases graph.connectBoth_cases sourceA sinkA forward backward sourceB sinkB with
    ⟨mistake, same, -⟩ | ⟨-, -, both⟩
  · rw [same]
    exact wired
  · rw [both]
    exact (wired.connect sourceA forward sinkB).connect sourceB backward sinkA

/-- Disconnecting a pipe keeps a graph wired. -/
theorem disconnect (wired : graph.IsWired) (pipe : Pipe) : (graph.disconnect pipe).1.IsWired := by
  obtain ⟨outs, ins, spelled⟩ := wired
  exact ⟨_, _, spelled.disconnect pipe⟩

/-- Disconnecting pipes keeps a graph wired. -/
theorem disconnectAll (wired : graph.IsWired) (pipes : List Pipe) :
    (graph.disconnectAll pipes).IsWired := by
  obtain ⟨outs, ins, spelled⟩ := wired
  exact ⟨_, _, spelled.disconnectAll pipes⟩

/-- Disconnecting a pipe, or none, keeps a graph wired. -/
theorem disconnect? (wired : graph.IsWired) (pipe : Option Pipe) :
    (graph.disconnect? pipe).1.IsWired := by
  cases pipe with
  | none => exact wired
  | some pipe => exact wired.disconnect pipe

/-- Every call keeps a graph wired. -/
theorem apply (wired : graph.IsWired) (operation : Operation) :
    (graph.apply operation).IsWired := by
  have ⟨outs, ins, spelled⟩ := wired
  cases operation with
  | addSource => exact ⟨_, _, spelled.addSource⟩
  | addSink => exact ⟨_, _, spelled.addSink⟩
  | addPipe => exact ⟨_, _, spelled.addPipe⟩
  | connectInlet source pipe =>
    exact wired.attempt fun done => ⟨_, _, spelled.connectInlet done⟩
  | connectOutlet pipe sink =>
    exact wired.attempt fun done => ⟨_, _, spelled.connectOutlet done⟩
  | connect source pipe sink => exact wired.connect source pipe sink
  | connectBoth sourceA sinkA forward backward sourceB sinkB =>
    exact wired.connectBoth sourceA sinkA forward backward sourceB sinkB
  | disconnect pipe => exact wired.disconnect pipe
  | disconnectBoth forward backward => exact (wired.disconnect forward).disconnect backward
  | disconnectRoute source sink => exact wired.disconnect? _
  | disconnectRouteBackwards sink source => exact wired.disconnect? _
  | disconnectSource source =>
    rw [Graph.apply, spelled.disconnectSource_eq]
    exact wired.disconnectAll _
  | disconnectSink sink =>
    rw [Graph.apply, spelled.disconnectSink_eq]
    exact wired.disconnectAll _
  | moveSource source target =>
    by_cases done : (graph.moveSource source target).2 = .ok ()
    · exact ⟨_, _, spelled.moveSource done⟩
    · rw [Graph.apply, moveSource_of_failed done]
      exact wired
  | swapSources one other =>
    exact wired.attempt fun done => ⟨_, _, spelled.swapSources done⟩
  | moveSink sink target =>
    by_cases done : (graph.moveSink sink target).2 = .ok ()
    · exact ⟨_, _, spelled.moveSink done⟩
    · rw [Graph.apply, moveSink_of_failed done]
      exact wired
  | swapSinks one other =>
    exact wired.attempt fun done => ⟨_, _, spelled.swapSinks done⟩
  | lock source cable => exact ⟨_, _, spelled.of_sameLinks (graph.sameLinks_lock source cable)⟩
  | unlock source cable => exact ⟨_, _, spelled.of_sameLinks (graph.sameLinks_unlock source cable)⟩
  | dispatch source message =>
    exact ⟨_, _, spelled.of_sameLinks (graph.sameLinks_dispatch source message)⟩

/-- Every run keeps a graph wired. -/
theorem applyAll (wired : graph.IsWired) (operations : List Operation) :
    (graph.applyAll operations).IsWired := by
  induction operations generalizing graph with
  | nil => exact wired
  | cons operation rest ih => exact ih (wired.apply operation)

end IsWired

/-- Behind every run the graph is wired. -/
theorem run_wired (operations : List Operation) : (run operations).IsWired :=
  IsWired.applyAll ⟨_, _, empty_wired⟩ operations

end Graph

end MidiTransport.Patchbay
