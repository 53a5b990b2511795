import MidiTransport.Proofs.Patchbay.Disconnecting

/-!
# Ways from a source to a sink

A pipe leads from a source to a sink if it lies in the lists of both, so the ways from a source to
a sink can be looked up in either list. The two lists have them in the order in which their own
ends were connected, which may differ, but they have the same ones (`Wired.routes_perm`). Taking
out one of these pipes, whichever it is, takes away one way between these two and no other
(`Wired.losesRoute`).
-/

namespace MidiTransport.Patchbay.Graph

variable {graph next : Graph} {pipe : Pipe} {source one : Source} {sink place : Sink}
  {outs : Source → List Pipe} {ins : Sink → List Pipe}

/-- The pipes that lead from a source to a sink, in the order of the source. -/
def routes (graph : Graph) (source : Source) (sink : Sink) : List Pipe :=
  (graph.outChain source).filter (graph.sinkOf · == some sink)

/-- The pipes that lead from a source to a sink, in the order of the sink. -/
def routesBackwards (graph : Graph) (sink : Sink) (source : Source) : List Pipe :=
  (graph.inChain sink).filter (graph.sourceOf · == some source)

/-- What it is to lose one way from a source to a sink, and nothing else. -/
structure LosesRoute (graph : Graph) (source : Source) (sink : Sink) (next : Graph) : Prop where
  pipe : ∃ pipe, graph.sourceOf pipe = some source ∧ graph.sinkOf pipe = some sink ∧
    graph.LosesPipe pipe next
  sinksOf : ∀ one place,
    (next.sinksOf one).count place + (if one = source ∧ place = sink then 1 else 0) =
      (graph.sinksOf one).count place
  sourcesOf : ∀ one place,
    (next.sourcesOf place).count one + (if one = source ∧ place = sink then 1 else 0) =
      (graph.sourcesOf place).count one

/-- The outcome of taking away one way from a source to a sink, if there is any. -/
structure CutsRoute (graph : Graph) (source : Source) (sink : Sink) (outcome : Graph × Bool) :
    Prop where
  answer : outcome.2 = decide (sink ∈ graph.sinksOf source)
  behind : if sink ∈ graph.sinksOf source then graph.LosesRoute source sink outcome.1
    else outcome.1 = graph

/-! ## Counting ways -/

/-- A source reaches a sink once for each route. -/
theorem count_sinksOf (graph : Graph) (source : Source) (sink : Sink) :
    (graph.sinksOf source).count sink = (graph.routes source sink).length := by
  rw [sinksOf, List.count_filterMap, List.countP_eq_length_filter, routes]

theorem count_sourcesOf (graph : Graph) (sink : Sink) (source : Source) :
    (graph.sourcesOf sink).count source = (graph.routesBackwards sink source).length := by
  rw [sourcesOf, List.count_filterMap, List.countP_eq_length_filter, routesBackwards]

/-- A source reaches the sinks that it has routes to. -/
theorem mem_sinksOf_iff_routes : sink ∈ graph.sinksOf source ↔ graph.routes source sink ≠ [] := by
  rw [← List.count_pos_iff, count_sinksOf, List.length_pos_iff]

namespace Wired

/-- The routes between two ends are the pipes that lead from one to the other. -/
theorem mem_routes_iff (wired : graph.Wired outs ins) :
    pipe ∈ graph.routes source sink ↔
      graph.sourceOf pipe = some source ∧ graph.sinkOf pipe = some sink := by
  rw [routes, List.mem_filter, wired.outChain_eq, ← wired.spells.sourceOf, beq_iff_eq]

theorem mem_routesBackwards_iff (wired : graph.Wired outs ins) :
    pipe ∈ graph.routesBackwards sink source ↔
      graph.sourceOf pipe = some source ∧ graph.sinkOf pipe = some sink := by
  rw [routesBackwards, List.mem_filter, wired.inChain_eq, ← wired.spells.sinkOf, beq_iff_eq,
    and_comm]

/-- Each route is a different pipe. -/
theorem nodup_routes (wired : graph.Wired outs ins) (source : Source) (sink : Sink) :
    (graph.routes source sink).Nodup := by
  rw [routes, wired.outChain_eq]
  exact (wired.outward.nodup source).filter _

theorem nodup_routesBackwards (wired : graph.Wired outs ins) (sink : Sink) (source : Source) :
    (graph.routesBackwards sink source).Nodup := by
  rw [routesBackwards, wired.inChain_eq]
  exact (wired.inward.nodup sink).filter _

/-- Both ends know the same ways. -/
theorem routes_perm (wired : graph.Wired outs ins) (source : Source) (sink : Sink) :
    (graph.routes source sink).Perm (graph.routesBackwards sink source) := by
  rw [List.perm_ext_iff_of_nodup (wired.nodup_routes source sink)
    (wired.nodup_routesBackwards sink source)]
  intro pipe
  rw [wired.mem_routes_iff, wired.mem_routesBackwards_iff]

/-- Both ends count the same routes. -/
theorem count_sinksOf_eq (wired : graph.Wired outs ins) (source : Source) (sink : Sink) :
    (graph.sinksOf source).count sink = (graph.sourcesOf sink).count source := by
  rw [count_sinksOf, count_sourcesOf]
  exact (wired.routes_perm source sink).length_eq

end Wired

/-! ## One way less -/

/-- The ways that remain are those through other pipes. -/
theorem LosesPipe.routes (lost : graph.LosesPipe pipe next) (source : Source) (sink : Sink) :
    next.routes source sink = (graph.routes source sink).filter (· != pipe) := by
  rw [Graph.routes, Graph.routes, lost.spells.outChain, List.filter_filter, List.filter_filter]
  refine List.filter_congr fun other _ => ?_
  by_cases same : other = pipe
  · simp [same]
  · rw [lost.sinkOf other same, Bool.and_comm]

/-- With one part gone, a list without repetitions has one part less, if it had this one. -/
theorem length_filter_ne {parts : List Pipe} (nodup : parts.Nodup) (pipe : Pipe) :
    (parts.filter (· != pipe)).length + (if pipe ∈ parts then 1 else 0) = parts.length := by
  rw [← nodup.erase_eq_filter, List.length_erase]
  split
  · rename_i member
    have positive := List.length_pos_of_mem member
    omega
  · rfl

namespace Wired

/-- Losing a pipe takes away one route between its ends and no other one. -/
theorem count_sinksOf_losesPipe (wired : graph.Wired outs ins) (lost : graph.LosesPipe pipe next)
    (member : pipe ∈ graph.routes source sink) (one : Source) (place : Sink) :
    (next.sinksOf one).count place + (if one = source ∧ place = sink then 1 else 0) =
      (graph.sinksOf one).count place := by
  have ends : pipe ∈ graph.routes one place ↔ one = source ∧ place = sink := by
    obtain ⟨starts, leads⟩ := wired.mem_routes_iff.mp member
    rw [wired.mem_routes_iff, starts, leads, Option.some_inj, Option.some_inj, eq_comm,
      @eq_comm _ sink]
  simp only [count_sinksOf, lost.routes, ← ends]
  exact length_filter_ne (wired.nodup_routes one place) pipe

/-- Whichever pipe goes, one way from its source to its sink goes with it. -/
theorem losesRoute (wired : graph.Wired outs ins) (lost : graph.LosesPipe pipe next)
    (after : next.IsWired) (member : pipe ∈ graph.routes source sink) :
    graph.LosesRoute source sink next := by
  obtain ⟨starts, leads⟩ := wired.mem_routes_iff.mp member
  obtain ⟨outsNext, insNext, spelled⟩ := after
  have counts := wired.count_sinksOf_losesPipe lost member
  refine ⟨⟨pipe, starts, leads, lost⟩, counts, fun one place => ?_⟩
  rw [← spelled.count_sinksOf_eq, ← wired.count_sinksOf_eq]
  exact counts one place

/-- Taking out one of the ways, if there is any. -/
theorem cutsRoute (wired : graph.Wired outs ins) (guarded : graph.Guarded) {ways : List Pipe}
    (same : (graph.routes source sink).Perm ways) :
    graph.CutsRoute source sink (graph.disconnect? ways.head?) := by
  cases ways with
  | nil =>
    have unreached : sink ∉ graph.sinksOf source := by
      rw [mem_sinksOf_iff_routes, same.eq_nil]
      exact fun absent => absent rfl
    exact ⟨(decide_eq_false unreached).symm, by rw [if_neg unreached]; rfl⟩
  | cons pipe rest =>
    have member : pipe ∈ graph.routes source sink := same.mem_iff.mpr List.mem_cons_self
    have reached : sink ∈ graph.sinksOf source :=
      mem_sinksOf_iff_routes.mpr (List.ne_nil_of_mem member)
    have here := (wired.spells.sourceOf pipe source).mp (wired.mem_routes_iff.mp member).1
    have bound : graph.inlet pipe ≠ none := fun free =>
      (wired.outward.strung source).back_isSome here (by simp [outSide, free])
    constructor
    · rw [decide_eq_true reached]
      exact disconnect_snd.mpr (.inl bound)
    · rw [if_pos reached]
      exact wired.losesRoute (wired.losesPipe_disconnect guarded pipe)
        ⟨_, _, wired.disconnect pipe⟩ member

end Wired

/-- The first route is disconnected, if there is one. -/
theorem disconnectRoute_eq (graph : Graph) (source : Source) (sink : Sink) :
    graph.disconnectRoute source sink = graph.disconnect? (graph.routes source sink).head? := by
  rw [disconnectRoute, routes, List.head?_filter]

theorem disconnectRouteBackwards_eq (graph : Graph) (sink : Sink) (source : Source) :
    graph.disconnectRouteBackwards sink source =
      graph.disconnect? (graph.routesBackwards sink source).head? := by
  rw [disconnectRouteBackwards, routesBackwards, List.head?_filter]

/-- In every run, a source reaches a sink in as many ways as the sink is reached by the source.
Disconnecting a way that is looked up at the source or at the sink takes away one way between
these two and no other, and tells whether there was any. -/
theorem routes_of_run (operations : List Operation) (source : Source) (sink : Sink) :
    ((run operations).sinksOf source).count sink =
        ((run operations).sourcesOf sink).count source ∧
      (run operations).CutsRoute source sink ((run operations).disconnectRoute source sink) ∧
      (run operations).CutsRoute source sink
        ((run operations).disconnectRouteBackwards sink source) := by
  obtain ⟨outs, ins, wired⟩ := run_wired operations
  have guarded := guarded_run operations
  refine ⟨wired.count_sinksOf_eq source sink, ?_, ?_⟩
  · rw [disconnectRoute_eq]
    exact wired.cutsRoute guarded (.refl _)
  · rw [disconnectRouteBackwards_eq]
    exact wired.cutsRoute guarded (wired.routes_perm source sink)

/-- Two pipes that are connected in one order at their source and in the other one at their sink:
each end loses the pipe that it has had for longer. -/
example :
    let graph := run [.addSource, .addSink, .addPipe, .addPipe, .connectInlet ⟨0⟩ ⟨0⟩,
      .connectInlet ⟨0⟩ ⟨1⟩, .connectOutlet ⟨1⟩ ⟨0⟩, .connectOutlet ⟨0⟩ ⟨0⟩]
    (graph.disconnectRoute ⟨0⟩ ⟨0⟩).1.outChain ⟨0⟩ = [⟨1⟩] ∧
      (graph.disconnectRouteBackwards ⟨0⟩ ⟨0⟩).1.outChain ⟨0⟩ = [⟨0⟩] := by
  decide +kernel

end MidiTransport.Patchbay.Graph
