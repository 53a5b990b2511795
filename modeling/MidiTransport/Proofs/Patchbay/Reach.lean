import MidiTransport.Proofs.Patchbay.Walks

/-!
# The sinks that a source reaches

A source reaches a sink through every pipe that lies in the lists of both
(`Wired.mem_sinksOf_iff`). So connecting never takes a sink away from a source, disconnecting
never adds one, and an exchange of two ends exchanges what they reach. What a call does to the
locks goes along with that. `Renames` and `Cuts` say both at once, for calls that keep all
locks under new names and for calls that disconnect. An exchange does nothing but give new names
(`Relabels`).
-/

namespace MidiTransport.Patchbay

/-- The lock with other names for its ends. -/
def Lock.rename (nameSource : Source → Source) (nameSink : Sink → Sink) (lock : Lock) : Lock :=
  ⟨nameSink lock.sink, lock.cable, nameSource lock.owner⟩

/-- A lock keeps itself under the names it has. -/
@[simp] theorem Lock.rename_id : Lock.rename id id = id :=
  funext fun _ => rfl

namespace Graph

variable {graph next final : Graph} {pipe : Pipe} {source : Source} {sink : Sink}
  {outs : Source → List Pipe} {ins : Sink → List Pipe} {nameSource : Source → Source}
  {nameSink : Sink → Sink}

/-- A source and a sink are connected by the pipes that lie in both of their lists. -/
theorem Wired.mem_sinksOf_iff (wired : graph.Wired outs ins) :
    sink ∈ graph.sinksOf source ↔ ∃ pipe ∈ outs source, pipe ∈ ins sink := by
  have spells := wired.spells
  simp only [spells.sinksOf, List.mem_filterMap, spells.sinkOf]

namespace SameLinks

theorem outChain (same : graph.SameLinks next) : next.outChain = graph.outChain := by
  ext1 source
  have head : next.outHead = graph.outHead := congrArg Side.head same.outSide
  have links : next.nextOut = graph.nextOut := congrArg Side.next same.outSide
  rw [Graph.outChain, Graph.outChain, head, links, same.size]

theorem inChain (same : graph.SameLinks next) : next.inChain = graph.inChain := by
  ext1 sink
  have head : next.inHead = graph.inHead := congrArg Side.head same.inSide
  have links : next.nextIn = graph.nextIn := congrArg Side.next same.inSide
  rw [Graph.inChain, Graph.inChain, head, links, same.size]

theorem sourceOf (same : graph.SameLinks next) : next.sourceOf = graph.sourceOf := by
  ext1 pipe
  rw [Graph.sourceOf, Graph.sourceOf, sourceWithin_eq, sourceWithin_eq, same.outSide, same.size]

theorem sinkOf (same : graph.SameLinks next) : next.sinkOf = graph.sinkOf := by
  ext1 pipe
  rw [Graph.sinkOf, Graph.sinkOf, sinkWithin_eq, sinkWithin_eq, same.inSide, same.size]

theorem sinksOf (same : graph.SameLinks next) : next.sinksOf = graph.sinksOf := by
  ext1 source
  rw [Graph.sinksOf, Graph.sinksOf, same.outChain, same.sinkOf]

end SameLinks

/-- Releasing locks changes no way. -/
theorem sinksOf_releaseOrphans (graph : Graph) :
    graph.releaseOrphans.sinksOf = graph.sinksOf :=
  SameLinks.sinksOf ⟨rfl, rfl, rfl⟩

/-! ## Calls that keep all locks -/

/-- Whatever a source reaches it still reaches, all locks are still there, and both ends go
by other names. -/
structure Renames (nameSource : Source → Source) (nameSink : Sink → Sink) (graph next : Graph) :
    Prop where
  reach : ∀ source, ∀ sink ∈ graph.sinksOf source, nameSink sink ∈ next.sinksOf (nameSource source)
  locks : next.locks = graph.locks.map (Lock.rename nameSource nameSink)

/-- Whatever a source reaches it still reaches, and all locks are still there. -/
abbrev Extends (graph next : Graph) : Prop := Renames id id graph next

namespace Extends

/-- Lists that grow lose no way from a source to a sink. -/
theorem of_wired {outsNext : Source → List Pipe} {insNext : Sink → List Pipe}
    (wired : graph.Wired outs ins) (after : next.Wired outsNext insNext)
    (outward : ∀ source, outs source ⊆ outsNext source) (inward : ∀ sink, ins sink ⊆ insNext sink)
    (locks : next.locks = graph.locks) : graph.Extends next where
  reach source sink reached := by
    obtain ⟨pipe, there, here⟩ := wired.mem_sinksOf_iff.mp reached
    exact after.mem_sinksOf_iff.mpr ⟨pipe, outward source there, inward sink here⟩
  locks := by rw [Lock.rename_id, List.map_id, locks]

theorem refl (graph : Graph) : graph.Extends graph where
  reach _ _ reached := reached
  locks := by rw [Lock.rename_id, List.map_id]

theorem trans (first : graph.Extends next) (second : next.Extends final) :
    graph.Extends final where
  reach source sink reached := second.reach source sink (first.reach source sink reached)
  locks := by simpa [first.locks] using second.locks

/-- A failed attempt changes nothing. -/
theorem attempt {condition : Except WiringError Unit}
    (success : (graph.proceed condition next).2 = .ok () →
      graph.Extends (graph.proceed condition next).1) :
    graph.Extends (graph.proceed condition next).1 := by
  rcases proceed_cases graph condition next with done | same
  · exact success done
  · rw [same]
    exact refl graph

end Extends

/-- A pipe at the end of one list takes nothing away from any list. -/
theorem subset_update_append {Root : Type} [DecidableEq Root] (lists : Root → List Pipe)
    (root : Root) (pipe : Pipe) (one : Root) :
    lists one ⊆ Function.update lists root (lists root ++ [pipe]) one := by
  by_cases same : one = root
  · subst same
    simp
  · simp [same]

namespace Wired

theorem extends_addSource (wired : graph.Wired outs ins) : graph.Extends graph.addSource.1 :=
  .of_wired wired wired.addSource (fun _ => List.Subset.refl _) (fun _ => List.Subset.refl _) rfl

theorem extends_addSink (wired : graph.Wired outs ins) : graph.Extends graph.addSink.1 :=
  .of_wired wired wired.addSink (fun _ => List.Subset.refl _) (fun _ => List.Subset.refl _) rfl

theorem extends_addPipe (wired : graph.Wired outs ins) : graph.Extends graph.addPipe.1 :=
  .of_wired wired wired.addPipe (fun _ => List.Subset.refl _) (fun _ => List.Subset.refl _) rfl

theorem extends_connectInlet (wired : graph.Wired outs ins) (source : Source) (pipe : Pipe) :
    graph.Extends (graph.connectInlet source pipe).1 := by
  apply Extends.attempt
  intro done
  apply Extends.of_wired wired (wired.connectInlet done) (subset_update_append outs source pipe)
  · exact fun _ => List.Subset.refl _
  · exact locks_of_frame (frame_connectInlet graph source pipe)

theorem extends_connectOutlet (wired : graph.Wired outs ins) (pipe : Pipe) (sink : Sink) :
    graph.Extends (graph.connectOutlet pipe sink).1 := by
  apply Extends.attempt
  intro done
  apply Extends.of_wired wired (wired.connectOutlet done) fun _ => List.Subset.refl _
  · exact subset_update_append ins sink pipe
  · exact locks_of_frame (frame_connectOutlet graph pipe sink)

/-- Connecting both ends loses nothing. -/
theorem extends_connect (wired : graph.Wired outs ins) (source : Source) (pipe : Pipe)
    (sink : Sink) : graph.Extends (graph.connect source pipe sink).1 := by
  by_cases done : (graph.connect source pipe sink).2 = .ok ()
  · exact .of_wired wired (wired.connect done) (subset_update_append outs source pipe)
      (subset_update_append ins sink pipe) (locks_of_frame (frame_connect graph source pipe sink))
  · rw [connect_of_failed done]
    exact .refl graph

end Wired

/-- Connecting two directions loses nothing, even if it fails. -/
theorem IsWired.extends_connectBoth (wired : graph.IsWired) (sourceA : Source) (sinkA : Sink)
    (forward backward : Pipe) (sourceB : Source) (sinkB : Sink) :
    graph.Extends (graph.connectBoth sourceA sinkA forward backward sourceB sinkB).1 := by
  obtain ⟨outs, ins, spelled⟩ := wired
  rcases graph.connectBoth_cases sourceA sinkA forward backward sourceB sinkB with
    ⟨mistake, same, -⟩ | ⟨first, -, both⟩
  · rw [same]
    exact .refl graph
  · rw [both]
    exact (spelled.extends_connect sourceA forward sinkB).trans
      ((spelled.connect first).extends_connect sourceB backward sinkA)

/-! ## Exchanges -/

/-- The same pipes in the same chains with the same locks, with new names for the ends. -/
structure Relabels (nameSource : Source → Source) (nameSink : Sink → Sink) (graph next : Graph) :
    Prop where
  outChain : ∀ source, next.outChain (nameSource source) = graph.outChain source
  inChain : ∀ sink, next.inChain (nameSink sink) = graph.inChain sink
  sourceOf : ∀ pipe, next.sourceOf pipe = (graph.sourceOf pipe).map nameSource
  sinkOf : ∀ pipe, next.sinkOf pipe = (graph.sinkOf pipe).map nameSink
  frame : next.frame =
    { graph.frame with locks := graph.locks.map (Lock.rename nameSource nameSink) }

namespace Relabels

/-- Lists under new names belong to ends under new names. -/
theorem of_wired (wired : graph.Wired outs ins)
    (after : next.Wired (outs ∘ nameSource) (ins ∘ nameSink))
    (backSources : Function.Involutive nameSource) (backSinks : Function.Involutive nameSink)
    (frame : next.frame =
      { graph.frame with locks := graph.locks.map (Lock.rename nameSource nameSink) }) :
    Relabels nameSource nameSink graph next where
  outChain source := by
    rw [after.outChain_eq, wired.outChain_eq, Function.comp_apply, backSources]
  inChain sink := by
    rw [after.inChain_eq, wired.inChain_eq, Function.comp_apply, backSinks]
  sourceOf pipe := by
    ext1 source
    rw [after.spells.sourceOf, Option.map_eq_some_iff]
    constructor
    · intro member
      exact ⟨nameSource source, (wired.spells.sourceOf _ _).mpr member, backSources source⟩
    · rintro ⟨before, found, rfl⟩
      rw [Function.comp_apply, backSources]
      exact (wired.spells.sourceOf _ _).mp found
  sinkOf pipe := by
    ext1 sink
    rw [after.spells.sinkOf, Option.map_eq_some_iff]
    constructor
    · intro member
      exact ⟨nameSink sink, (wired.spells.sinkOf _ _).mpr member, backSinks sink⟩
    · rintro ⟨before, found, rfl⟩
      rw [Function.comp_apply, backSinks]
      exact (wired.spells.sinkOf _ _).mp found
  frame := frame

theorem locks (relabels : Relabels nameSource nameSink graph next) :
    next.locks = graph.locks.map (Lock.rename nameSource nameSink) :=
  congrArg Frame.locks relabels.frame

theorem sinksOf (relabels : Relabels nameSource nameSink graph next) (source : Source) :
    next.sinksOf (nameSource source) = (graph.sinksOf source).map nameSink := by
  rw [Graph.sinksOf, Graph.sinksOf, relabels.outChain, List.map_filterMap]
  exact congrArg (List.filterMap · _) (funext relabels.sinkOf)

/-- What only gets new names loses nothing. -/
theorem renames (relabels : Relabels nameSource nameSink graph next) :
    Renames nameSource nameSink graph next where
  reach source sink reached := by
    rw [relabels.sinksOf]
    exact List.mem_map_of_mem reached
  locks := relabels.locks

end Relabels

namespace Wired

/-- An exchange of sources gives each of them the name of the other one. -/
theorem relabels_exchangeSources {one other : Source} (wired : graph.Wired outs ins)
    (after : (graph.exchangeSources one other).Wired
      (fun source => outs (exchange one other source)) ins) :
    Relabels (exchange one other) id graph (graph.exchangeSources one other) :=
  .of_wired wired after (exchange_exchange one other) (fun _ => rfl)
    (frame_exchangeSources graph one other)

theorem relabels_exchangeSinks {one other : Sink} (wired : graph.Wired outs ins)
    (after : (graph.exchangeSinks one other).Wired outs fun sink => ins (exchange one other sink)) :
    Relabels id (exchange one other) graph (graph.exchangeSinks one other) :=
  .of_wired wired after (fun _ => rfl) (exchange_exchange one other)
    (frame_exchangeSinks graph one other)

end Wired

/-! ## Disconnecting -/

/-- No source reaches more than before. Of the locks, at least those of sources that still
reach their sinks remain, and all of these if no other locks were there. -/
structure Cuts (graph next : Graph) : Prop where
  fewer : ∀ source, next.sinksOf source ⊆ graph.sinksOf source
  remaining : next.locks.Sublist graph.locks
  kept : ∀ lock ∈ graph.locks, lock.sink ∈ next.sinksOf lock.owner → lock ∈ next.locks
  reached : (∀ lock ∈ graph.locks, lock.sink ∈ graph.sinksOf lock.owner) →
    ∀ lock ∈ next.locks, lock.sink ∈ next.sinksOf lock.owner

namespace Cuts

theorem refl (graph : Graph) : graph.Cuts graph where
  fewer _ := List.Subset.refl _
  remaining := List.Sublist.refl _
  kept _ member _ := member
  reached all := all

theorem trans (first : graph.Cuts next) (second : next.Cuts final) : graph.Cuts final where
  fewer source := List.Subset.trans (second.fewer source) (first.fewer source)
  remaining := second.remaining.trans first.remaining
  kept lock member reached := by
    have still := second.fewer lock.owner reached
    exact second.kept lock (first.kept lock member still) reached
  reached all := second.reached (first.reached all)

end Cuts

/-- Releasing the orphans leaves exactly the locks whose owners reach their sinks. -/
theorem mem_locks_releaseOrphans {lock : Lock} :
    lock ∈ graph.releaseOrphans.locks ↔
      lock ∈ graph.locks ∧ lock.sink ∈ graph.releaseOrphans.sinksOf lock.owner := by
  rw [sinksOf_releaseOrphans]
  simp [releaseOrphans]

namespace Wired

/-- Disconnecting a pipe cuts ways, and releases the locks behind them. -/
theorem cuts_disconnect (wired : graph.Wired outs ins) (pipe : Pipe) :
    graph.Cuts (graph.disconnect pipe).1 := by
  have after := wired.disconnect pipe
  have fewer (source : Source) :
      (graph.disconnect pipe).1.sinksOf source ⊆ graph.sinksOf source := by
    intro sink reached
    obtain ⟨other, there, here⟩ := after.mem_sinksOf_iff.mp reached
    exact wired.mem_sinksOf_iff.mpr ⟨other, List.mem_of_mem_erase there, List.mem_of_mem_erase here⟩
  rcases graph.disconnect_cases pipe with ⟨same, -, -⟩ | ⟨links, -, -, taken⟩
  · rw [same]
    exact .refl graph
  · have stays := locks_of_frame (frame_unlink graph pipe links)
    rw [taken] at fewer ⊢
    refine ⟨fewer, ?_, ?_, ?_⟩
    · rw [← stays]
      exact List.filter_sublist
    · intro lock member reached
      exact mem_locks_releaseOrphans.mpr ⟨stays ▸ member, reached⟩
    · intro _ lock member
      exact (mem_locks_releaseOrphans.mp member).2

/-- Disconnecting pipes cuts ways, and releases the locks behind them. -/
theorem cuts_disconnectAll (wired : graph.Wired outs ins) (pipes : List Pipe) :
    graph.Cuts (graph.disconnectAll pipes) := by
  induction pipes generalizing graph outs ins with
  | nil => exact .refl graph
  | cons pipe rest ih => exact (wired.cuts_disconnect pipe).trans (ih (wired.disconnect pipe))

/-- Disconnecting a pipe, or none, cuts ways at most. -/
theorem cuts_disconnect? (wired : graph.Wired outs ins) (pipe? : Option Pipe) :
    graph.Cuts (graph.disconnect? pipe?).1 := by
  cases pipe? with
  | none => exact .refl graph
  | some pipe => exact wired.cuts_disconnect pipe

end Wired

end Graph

end MidiTransport.Patchbay
