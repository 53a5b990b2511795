import MidiTransport.Proofs.Patchbay.Exclusivity
import MidiTransport.Proofs.Patchbay.Identity

/-!
# Exchanges are renamings

An exchange of two sources or sinks gives new names to the ends of a graph and leaves the rest
alone (`Relabels`). Then every question about the one graph is a question about the other
(`Relabels.mirrors`): what a source reaches, who owns a cable of a sink, where a message goes and
whether a source gets its locks. A delivery or a lock leaves two such graphs behind again. A move is
an exchange with an end that has no connections, and so no locks either, since the owner of a lock
always reaches its sink.
-/

namespace MidiTransport.Patchbay.Graph

variable {graph next : Graph} {pipe : Pipe} {source : Source} {sink : Sink} {cable : Cable}
  {outs : Source → List Pipe} {ins : Sink → List Pipe} {nameSource : Source → Source}
  {nameSink : Sink → Sink}

namespace Relabels

/-! ## Ends and locks -/

theorem knowsSource (relabels : Relabels nameSource nameSink graph next) (source : Source) :
    next.knowsSource source = graph.knowsSource source := by
  have sizes : next.sources.size = graph.sources.size := congrArg Frame.sources relabels.frame
  rw [Graph.knowsSource, Graph.knowsSource, sizes]

theorem knowsSink (relabels : Relabels nameSource nameSink graph next) (sink : Sink) :
    next.knowsSink sink = graph.knowsSink sink := by
  have sizes : next.sinks.size = graph.sinks.size := congrArg Frame.sinks relabels.frame
  rw [Graph.knowsSink, Graph.knowsSink, sizes]

/-- Under its new name a sink is fed by the same sources under theirs. -/
theorem sourcesOf (relabels : Relabels nameSource nameSink graph next) (sink : Sink) :
    next.sourcesOf (nameSink sink) = (graph.sourcesOf sink).map nameSource := by
  rw [Graph.sourcesOf, Graph.sourcesOf, relabels.inChain, List.map_filterMap]
  exact congrArg (List.filterMap · _) (funext relabels.sourceOf)

/-- A sink is locked by the same source under their new names. -/
theorem lockOwner (relabels : Relabels nameSource nameSink graph next)
    (apart : Function.Injective nameSink) (sink : Sink) (cable : Cable) :
    next.lockOwner (nameSink sink) cable = (graph.lockOwner sink cable).map nameSource := by
  have same : ((fun lock : Lock => lock.sink == nameSink sink && lock.cable == cable) ∘
      Lock.rename nameSource nameSink) =
      fun lock : Lock => lock.sink == sink && lock.cable == cable := by
    ext1 lock
    rw [Bool.eq_iff_iff]
    simp [Lock.rename, apart.eq_iff]
  rw [Graph.lockOwner, Graph.lockOwner, relabels.locks, List.find?_map, same, Option.map_map,
    Option.map_map]
  rfl

/-- Other locks and another count do not matter to the chains. -/
theorem of_sameLinks {graph' next' : Graph} (relabels : Relabels nameSource nameSink graph next)
    (same : graph.SameLinks graph') (same' : next.SameLinks next')
    (frame : next'.frame =
      { graph'.frame with locks := graph'.locks.map (Lock.rename nameSource nameSink) }) :
    Relabels nameSource nameSink graph' next' where
  outChain := by
    rw [same.outChain, same'.outChain]
    exact relabels.outChain
  inChain := by
    rw [same.inChain, same'.inChain]
    exact relabels.inChain
  sourceOf := by
    rw [same.sourceOf, same'.sourceOf]
    exact relabels.sourceOf
  sinkOf := by
    rw [same.sinkOf, same'.sinkOf]
    exact relabels.sinkOf
  frame := frame

theorem addLock (relabels : Relabels nameSource nameSink graph next)
    (apart : Function.Injective nameSink) (source : Source) (cable : Cable) (sink : Sink) :
    Relabels nameSource nameSink (graph.addLock source cable sink)
      (next.addLock (nameSource source) cable (nameSink sink)) := by
  have owner := relabels.lockOwner apart sink cable
  apply relabels.of_sameLinks (graph.sameLinks_addLock source cable sink)
    (next.sameLinks_addLock (nameSource source) cable (nameSink sink))
  unfold Graph.addLock
  cases found : graph.lockOwner sink cable with
  | some taken =>
    rw [owner, found]
    exact relabels.frame
  | none =>
    rw [owner, found]
    simp only [Option.map_none, frame_relock, relabels.frame, relabels.locks, List.map_append]
    rfl

theorem addLocks (relabels : Relabels nameSource nameSink graph next)
    (apart : Function.Injective nameSink) (source : Source) (cable : Cable) (sinks : List Sink) :
    Relabels nameSource nameSink (sinks.foldl (·.addLock source cable ·) graph)
      ((sinks.map nameSink).foldl (·.addLock (nameSource source) cable ·) next) := by
  induction sinks generalizing graph next with
  | nil => exact relabels
  | cons sink rest ih => exact ih (relabels.addLock apart source cable sink)

/-! ## Answers, if no two ends get the same name -/

section Apart

variable (relabels : Relabels nameSource nameSink graph next)
  (apartSources : Function.Injective nameSource) (apartSinks : Function.Injective nameSink)

include relabels apartSources apartSinks

theorem lockedByOther (sink : Sink) (cable : Cable) (source? : Option Source) :
    next.lockedByOther (nameSink sink) cable (source?.map nameSource) =
      graph.lockedByOther sink cable source? := by
  rw [Graph.lockedByOther, Graph.lockedByOther, relabels.lockOwner apartSinks]
  cases graph.lockOwner sink cable with
  | none => rfl
  | some owner =>
    cases source? with
    | none => rfl
    | some source =>
      rw [Bool.eq_iff_iff]
      simp [apartSources.eq_iff]

theorem canWrite (source : Source) (cable : Cable) :
    next.canWrite (nameSource source) cable = graph.canWrite source cable := by
  rw [Graph.canWrite, Graph.canWrite, relabels.sinksOf, List.all_map]
  refine congrArg (List.all _) (funext fun sink => congrArg (!·) ?_)
  exact relabels.lockedByOther apartSources apartSinks sink cable (some source)

theorem isBlocked (pipe : Pipe) (cable : Cable) :
    next.isBlocked pipe cable = graph.isBlocked pipe cable := by
  rw [Graph.isBlocked, Graph.isBlocked, relabels.sinkOf, relabels.sourceOf]
  cases graph.sinkOf pipe with
  | none => rfl
  | some sink => exact relabels.lockedByOther apartSources apartSinks sink cable _

theorem admits (source : Source) (message : Message) (sink : Sink) :
    next.admits (nameSource source) message (nameSink sink) =
      graph.admits source message sink := by
  rw [Graph.admits, Graph.admits]
  refine congrArg (fun held => message.isRealTime || !held) ?_
  exact relabels.lockedByOther apartSources apartSinks sink message.cable (some source)

/-- A message goes to the same sinks, by their new names. -/
theorem dispatch_snd (source : Source) (message : Message) :
    (next.dispatch (nameSource source) message).2 =
      (graph.dispatch source message).2.map nameSink := by
  have same : next.admits (nameSource source) message ∘ nameSink = graph.admits source message :=
    funext (relabels.admits apartSources apartSinks source message)
  rw [Graph.dispatch_snd, Graph.dispatch_snd, relabels.sinksOf, ← List.map_reverse,
    List.filter_map, same]

/-- As many messages are held off. -/
theorem dispatch (source : Source) (message : Message) :
    Relabels nameSource nameSink (graph.dispatch source message).1
      (next.dispatch (nameSource source) message).1 := by
  apply relabels.of_sameLinks (graph.sameLinks_dispatch source message)
    (next.sameLinks_dispatch (nameSource source) message)
  have held : (next.dispatch (nameSource source) message).1.dropped =
      (graph.dispatch source message).1.dropped := by
    have dropped : next.dropped = graph.dropped := congrArg Frame.dropped relabels.frame
    rw [dropped_dispatch, dropped_dispatch, relabels.sinksOf, List.countP_map, dropped]
    refine congrArg (graph.dropped + List.countP · _) (funext fun sink => congrArg (!·) ?_)
    exact relabels.admits apartSources apartSinks source message sink
  calc (next.dispatch (nameSource source) message).1.frame
      = { next.frame with dropped := (next.dispatch (nameSource source) message).1.dropped } := rfl
    _ = { (graph.dispatch source message).1.frame with
          locks := graph.locks.map (Lock.rename nameSource nameSink) } := by
        rw [relabels.frame, held]
        rfl

/-- A source gets its locks in the one graph if it gets them in the other. -/
theorem lock (source : Source) (cable : Cable) :
    (next.lock (nameSource source) cable).2 = (graph.lock source cable).2 ∧
      Relabels nameSource nameSink (graph.lock source cable).1
        (next.lock (nameSource source) cable).1 := by
  have taken : (next.sinksOf (nameSource source)).any
      (next.lockedByOther · cable (some (nameSource source))) =
      (graph.sinksOf source).any (graph.lockedByOther · cable (some source)) := by
    rw [relabels.sinksOf, List.any_map]
    refine congrArg (List.any _) (funext fun sink => ?_)
    exact relabels.lockedByOther apartSources apartSinks sink cable (some source)
  unfold Graph.lock
  dsimp only
  rw [taken, relabels.sinksOf]
  split
  · exact ⟨rfl, relabels⟩
  · exact ⟨rfl, relabels.addLocks apartSinks source cable _⟩

end Apart

end Relabels

/-! ## All of this at once -/

/-- One graph answers every question as another one does, by other names. Behind a delivery or a
lock it still is the same graph by other names. -/
structure Mirrors (nameSource : Source → Source) (nameSink : Sink → Sink) (graph next : Graph) :
    Prop where
  relabels : Relabels nameSource nameSink graph next
  sinksOf : ∀ source, next.sinksOf (nameSource source) = (graph.sinksOf source).map nameSink
  sourcesOf : ∀ sink, next.sourcesOf (nameSink sink) = (graph.sourcesOf sink).map nameSource
  lockOwner : ∀ sink cable,
    next.lockOwner (nameSink sink) cable = (graph.lockOwner sink cable).map nameSource
  isBlocked : ∀ pipe cable, next.isBlocked pipe cable = graph.isBlocked pipe cable
  canWrite : ∀ source cable, next.canWrite (nameSource source) cable = graph.canWrite source cable
  received : ∀ source message,
    (next.dispatch (nameSource source) message).2 =
      (graph.dispatch source message).2.map nameSink
  behind_dispatch : ∀ source message,
    Relabels nameSource nameSink (graph.dispatch source message).1
      (next.dispatch (nameSource source) message).1
  locked : ∀ source cable,
    (next.lock (nameSource source) cable).2 = (graph.lock source cable).2
  behind_lock : ∀ source cable,
    Relabels nameSource nameSink (graph.lock source cable).1
      (next.lock (nameSource source) cable).1

/-- Nothing can be told from a graph whose ends have only got other names, but these names. -/
theorem Relabels.mirrors (relabels : Relabels nameSource nameSink graph next)
    (apartSources : Function.Injective nameSource) (apartSinks : Function.Injective nameSink) :
    Mirrors nameSource nameSink graph next where
  relabels := relabels
  sinksOf := relabels.sinksOf
  sourcesOf := relabels.sourcesOf
  lockOwner := relabels.lockOwner apartSinks
  isBlocked := relabels.isBlocked apartSources apartSinks
  canWrite := relabels.canWrite apartSources apartSinks
  received := relabels.dispatch_snd apartSources apartSinks
  behind_dispatch := relabels.dispatch apartSources apartSinks
  locked source cable := (relabels.lock apartSources apartSinks source cable).1
  behind_lock source cable := (relabels.lock apartSources apartSinks source cable).2

/-! ## Exchanges -/

/-- Names that are their own way back bring the frame back. -/
theorem Relabels.frame_back {final : Graph} (there : Relabels nameSource nameSink graph next)
    (back : Relabels nameSource nameSink next final)
    (backSources : Function.Involutive nameSource) (backSinks : Function.Involutive nameSink) :
    final.frame = graph.frame := by
  have same : Lock.rename nameSource nameSink ∘ Lock.rename nameSource nameSink = id := by
    ext1 lock
    rw [Function.comp_apply, Lock.rename, Lock.rename, backSources, backSinks]
    rfl
  rw [back.frame, there.frame, there.locks, List.map_map, same, List.map_id]
  rfl

namespace Wired

/-- A second exchange takes the first one back. -/
theorem exchangeSources_exchangeSources {one other : Source} (wired : graph.Wired outs ins)
    (knownOne : graph.knowsSource one = true) (knownOther : graph.knowsSource other = true) :
    (graph.exchangeSources one other).exchangeSources one other = graph := by
  have once := wired.exchangeSources knownOne knownOther
  have there := wired.relabels_exchangeSources once
  rw [← there.knowsSource] at knownOne knownOther
  have twice := once.exchangeSources knownOne knownOther
  have back := once.relabels_exchangeSources twice
  simp only [exchange_exchange] at twice
  exact twice.unique wired (there.frame_back back (exchange_exchange one other) fun _ => rfl)

/-- A second exchange takes the first one back. -/
theorem exchangeSinks_exchangeSinks {one other : Sink} (wired : graph.Wired outs ins)
    (knownOne : graph.knowsSink one = true) (knownOther : graph.knowsSink other = true) :
    (graph.exchangeSinks one other).exchangeSinks one other = graph := by
  have once := wired.exchangeSinks knownOne knownOther
  have there := wired.relabels_exchangeSinks once
  rw [← there.knowsSink] at knownOne knownOther
  have twice := once.exchangeSinks knownOne knownOther
  have back := once.relabels_exchangeSinks twice
  simp only [exchange_exchange] at twice
  exact twice.unique wired (there.frame_back back (fun _ => rfl) (exchange_exchange one other))

end Wired

/-- An exchange of known sources succeeds. -/
theorem swapSources_eq {one other : Source} (knownOne : graph.knowsSource one = true)
    (knownOther : graph.knowsSource other = true) :
    graph.swapSources one other = (graph.exchangeSources one other, .ok ()) := by
  have met : (do graph.requireSource one; graph.requireSource other) = .ok () := by
    simp [knownOne, knownOther]
  rw [swapSources, met]
  rfl

/-- An exchange of known sinks succeeds. -/
theorem swapSinks_eq {one other : Sink} (knownOne : graph.knowsSink one = true)
    (knownOther : graph.knowsSink other = true) :
    graph.swapSinks one other = (graph.exchangeSinks one other, .ok ()) := by
  have met : (do graph.requireSink one; graph.requireSink other) = .ok () := by
    simp [knownOne, knownOther]
  rw [swapSinks, met]
  rfl

/-! ## Moves -/

/-- A source without pipes owns no lock, since an owner reaches the sinks that it has locked. -/
theorem Guarded.owner_ne (guarded : graph.Guarded) (idle : graph.outChain source = []) :
    ∀ lock ∈ graph.locks, lock.owner ≠ source := by
  rintro lock member rfl
  have reached := guarded.reached lock member
  rw [Graph.sinksOf, idle] at reached
  cases reached

/-- A sink without pipes carries no lock, since no source reaches it. -/
theorem Guarded.sink_ne (guarded : graph.Guarded) (wired : graph.Wired outs ins)
    (idle : graph.inChain sink = []) : ∀ lock ∈ graph.locks, lock.sink ≠ sink := by
  rintro lock member rfl
  obtain ⟨pipe, -, here⟩ := wired.mem_sinksOf_iff.mp (guarded.reached lock member)
  rw [← wired.inChain_eq, idle] at here
  cases here

/-- The second one of two is exchanged for the first one. -/
theorem exchange_right {End : Type} [DecidableEq End] (one other : End) :
    exchange one other other = one := by
  unfold exchange
  grind

namespace Wired

theorem outHead_eq_none_iff (wired : graph.Wired outs ins) :
    graph.outHead source = none ↔ graph.outChain source = [] := by
  have head : graph.outHead source = (outs source).head? := wired.outward.head source
  rw [head, wired.outChain_eq, List.head?_eq_none_iff]

theorem inHead_eq_none_iff (wired : graph.Wired outs ins) :
    graph.inHead sink = none ↔ graph.inChain sink = [] := by
  have head : graph.inHead sink = (ins sink).head? := wired.inward.head sink
  rw [head, wired.inChain_eq, List.head?_eq_none_iff]

/-- A known source moves to another known one without pipes. -/
theorem moveSource_eq_ok_iff {target : Source} (wired : graph.Wired outs ins)
    (apart : source ≠ target) :
    (graph.moveSource source target).2 = .ok () ↔
      graph.knowsSource source = true ∧ graph.knowsSource target = true ∧
        graph.outChain target = [] := by
  rw [moveSource_eq, proceed_snd, ← wired.outHead_eq_none_iff]
  cases graph.outHead target <;> simp [apart]

/-- A known sink moves to another known one without pipes. -/
theorem moveSink_eq_ok_iff {target : Sink} (wired : graph.Wired outs ins)
    (apart : sink ≠ target) :
    (graph.moveSink sink target).2 = .ok () ↔
      graph.knowsSink sink = true ∧ graph.knowsSink target = true ∧
        graph.inChain target = [] := by
  rw [moveSink_eq, proceed_snd, ← wired.inHead_eq_none_iff]
  cases graph.inHead target <;> simp [apart]

/-- A source that has moved leaves no pipes and no locks behind. -/
theorem moveSource_left {target : Source} (wired : graph.Wired outs ins) (guarded : graph.Guarded)
    (apart : source ≠ target) (done : (graph.moveSource source target).2 = .ok ()) :
    graph.moveSource source target = graph.swapSources source target ∧
      (graph.moveSource source target).1.outChain source = [] ∧
      ∀ lock ∈ (graph.moveSource source target).1.locks, lock.owner ≠ source := by
  obtain ⟨knownSource, knownTarget, idle⟩ := (wired.moveSource_eq_ok_iff apart).mp done
  have moved : (graph.moveSource source target).1 = graph.exchangeSources source target := by
    rw [moveSource_eq, proceed_snd] at done
    rw [moveSource_eq, proceed_fst done]
  have relabels := wired.relabels_exchangeSources (wired.exchangeSources knownSource knownTarget)
  have left := relabels.outChain target
  rw [exchange_right, idle] at left
  refine ⟨?_, by rw [moved, left], ?_⟩
  · rw [swapSources_eq knownSource knownTarget]
    exact Prod.ext moved done
  · rw [moved, relabels.locks, List.forall_mem_map]
    intro lock member here
    have owner := exchange_injective source target (here.trans (exchange_right source target).symm)
    exact guarded.owner_ne idle lock member owner

/-- A sink that has moved leaves no pipes and no locks behind. -/
theorem moveSink_left {target : Sink} (wired : graph.Wired outs ins) (guarded : graph.Guarded)
    (apart : sink ≠ target) (done : (graph.moveSink sink target).2 = .ok ()) :
    graph.moveSink sink target = graph.swapSinks sink target ∧
      (graph.moveSink sink target).1.inChain sink = [] ∧
      ∀ lock ∈ (graph.moveSink sink target).1.locks, lock.sink ≠ sink := by
  obtain ⟨knownSink, knownTarget, idle⟩ := (wired.moveSink_eq_ok_iff apart).mp done
  have moved : (graph.moveSink sink target).1 = graph.exchangeSinks sink target := by
    rw [moveSink_eq, proceed_snd] at done
    rw [moveSink_eq, proceed_fst done]
  have relabels := wired.relabels_exchangeSinks (wired.exchangeSinks knownSink knownTarget)
  have left := relabels.inChain target
  rw [exchange_right, idle] at left
  refine ⟨?_, by rw [moved, left], ?_⟩
  · rw [swapSinks_eq knownSink knownTarget]
    exact Prod.ext moved done
  · rw [moved, relabels.locks, List.forall_mem_map]
    intro lock member here
    have place := exchange_injective sink target (here.trans (exchange_right sink target).symm)
    exact guarded.sink_ne wired idle lock member place

end Wired

/-- In every run, known sources or sinks can be exchanged. The graph behind that mirrors the one
before with the two names exchanged, and a second exchange restores it. A known source or sink
moves to another known one exactly if that one has no pipes. The move is an exchange, and leaves no
pipes and no locks behind. -/
theorem relocations_of_run (operations : List Operation) :
    (∀ one other, (run operations).knowsSource one = true →
      (run operations).knowsSource other = true →
      ((run operations).swapSources one other).2 = .ok () ∧
      Mirrors (exchange one other) id (run operations)
        ((run operations).swapSources one other).1 ∧
      ((run operations).swapSources one other).1.swapSources one other =
        (run operations, .ok ())) ∧
    (∀ one other, (run operations).knowsSink one = true →
      (run operations).knowsSink other = true →
      ((run operations).swapSinks one other).2 = .ok () ∧
      Mirrors id (exchange one other) (run operations)
        ((run operations).swapSinks one other).1 ∧
      ((run operations).swapSinks one other).1.swapSinks one other =
        (run operations, .ok ())) ∧
    (∀ source target, source ≠ target →
      (((run operations).moveSource source target).2 = .ok () ↔
        (run operations).knowsSource source = true ∧
          (run operations).knowsSource target = true ∧
          (run operations).outChain target = []) ∧
      (((run operations).moveSource source target).2 = .ok () →
        (run operations).moveSource source target =
          (run operations).swapSources source target ∧
        ((run operations).moveSource source target).1.outChain source = [] ∧
        ∀ lock ∈ ((run operations).moveSource source target).1.locks, lock.owner ≠ source)) ∧
    ∀ sink target, sink ≠ target →
      (((run operations).moveSink sink target).2 = .ok () ↔
        (run operations).knowsSink sink = true ∧
          (run operations).knowsSink target = true ∧
          (run operations).inChain target = []) ∧
      (((run operations).moveSink sink target).2 = .ok () →
        (run operations).moveSink sink target = (run operations).swapSinks sink target ∧
        ((run operations).moveSink sink target).1.inChain sink = [] ∧
        ∀ lock ∈ ((run operations).moveSink sink target).1.locks, lock.sink ≠ sink) := by
  obtain ⟨outs, ins, wired⟩ := run_wired operations
  have guarded := guarded_run operations
  generalize run operations = graph at wired guarded
  refine ⟨?_, ?_, ?_, ?_⟩
  · intro one other knownOne knownOther
    have relabels := wired.relabels_exchangeSources (wired.exchangeSources knownOne knownOther)
    rw [swapSources_eq knownOne knownOther]
    refine ⟨rfl, relabels.mirrors (exchange_injective one other) Function.injective_id, ?_⟩
    rw [swapSources_eq ((relabels.knowsSource one).trans knownOne)
      ((relabels.knowsSource other).trans knownOther),
      wired.exchangeSources_exchangeSources knownOne knownOther]
  · intro one other knownOne knownOther
    have relabels := wired.relabels_exchangeSinks (wired.exchangeSinks knownOne knownOther)
    rw [swapSinks_eq knownOne knownOther]
    refine ⟨rfl, relabels.mirrors Function.injective_id (exchange_injective one other), ?_⟩
    rw [swapSinks_eq ((relabels.knowsSink one).trans knownOne)
      ((relabels.knowsSink other).trans knownOther),
      wired.exchangeSinks_exchangeSinks knownOne knownOther]
  · exact fun source target apart =>
      ⟨wired.moveSource_eq_ok_iff apart, wired.moveSource_left guarded apart⟩
  · exact fun sink target apart =>
      ⟨wired.moveSink_eq_ok_iff apart, wired.moveSink_left guarded apart⟩

/-- A source that has locked a sink. Its lock goes along with an exchange or a move of either. -/
theorem relocations_of_run_lockedSink :
    let graph := run (sharedSinkCalls ++ [.lock ⟨0⟩ .first, .addSource, .addSink])
    graph.locks = [⟨⟨0⟩, .first, ⟨0⟩⟩] ∧
      Mirrors (exchange ⟨0⟩ ⟨1⟩) id graph (graph.swapSources ⟨0⟩ ⟨1⟩).1 ∧
      Mirrors id (exchange ⟨0⟩ ⟨1⟩) graph (graph.swapSinks ⟨0⟩ ⟨1⟩).1 ∧
      graph.moveSource ⟨0⟩ ⟨2⟩ = graph.swapSources ⟨0⟩ ⟨2⟩ ∧
      (graph.moveSource ⟨0⟩ ⟨2⟩).1.locks = [⟨⟨0⟩, .first, ⟨2⟩⟩] ∧
      graph.moveSink ⟨0⟩ ⟨1⟩ = graph.swapSinks ⟨0⟩ ⟨1⟩ ∧
      (graph.moveSink ⟨0⟩ ⟨1⟩).1.locks = [⟨⟨1⟩, .first, ⟨0⟩⟩] := by
  intro graph
  obtain ⟨sources, sinks, movesSource, movesSink⟩ :=
    relocations_of_run (sharedSinkCalls ++ [.lock ⟨0⟩ .first, .addSource, .addSink])
  obtain ⟨-, mirrorsSources, -⟩ := sources ⟨0⟩ ⟨1⟩ (by decide +kernel) (by decide +kernel)
  obtain ⟨-, mirrorsSinks, -⟩ := sinks ⟨0⟩ ⟨1⟩ (by decide +kernel) (by decide +kernel)
  obtain ⟨swapsSource, -⟩ := (movesSource ⟨0⟩ ⟨2⟩ (by decide)).2 (by decide +kernel)
  obtain ⟨swapsSink, -⟩ := (movesSink ⟨0⟩ ⟨1⟩ (by decide)).2 (by decide +kernel)
  exact ⟨by decide +kernel, mirrorsSources, mirrorsSinks, swapsSource, by decide +kernel, swapsSink,
    by decide +kernel⟩

end MidiTransport.Patchbay.Graph
