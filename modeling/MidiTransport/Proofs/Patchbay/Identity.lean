import MidiTransport.Proofs.Patchbay.Operations

/-!
# A graph is known by its lists

The lists of pipes that the links of a graph spell determine all of its links, and the rest of a
graph is its frame. So two ways to change a graph lead to the same graph if they lead to the same
lists and the same frame (`Graph.Wired.unique`).
-/

namespace MidiTransport.Patchbay

namespace Side.Chained

variable {Root : Type} {side other : Side Root} {lists : Root → List Pipe}

/-- The lists determine the links of each pipe. -/
theorem links_unique (chained : side.Chained lists) (also : other.Chained lists) (pipe : Pipe) :
    side.back pipe = other.back pipe ∧ side.next pipe = other.next pipe := by
  by_cases absent : ∀ root, pipe ∉ lists root
  · obtain ⟨back, next⟩ := chained.loose pipe absent
    obtain ⟨back', next'⟩ := also.loose pipe absent
    exact ⟨back.trans back'.symm, next.trans next'.symm⟩
  · obtain ⟨root, member⟩ := not_forall_not.mp absent
    obtain ⟨front, behind, split⟩ := List.append_of_mem member
    obtain ⟨back, next⟩ := chained.links_of_split split
    obtain ⟨back', next'⟩ := also.links_of_split split
    exact ⟨back.trans back'.symm, next.trans next'.symm⟩

/-- Lists leave no choice of how the pipes are linked. -/
theorem unique (chained : side.Chained lists) (also : other.Chained lists) : side = other := by
  ext1
  · ext1 root
    rw [chained.head, also.head]
  · ext1 pipe
    exact (chained.links_unique also pipe).2
  · ext1 pipe
    exact (chained.links_unique also pipe).1

end Side.Chained

/-- An inlet can be told by what it hangs on. -/
theorem Inlet.hook_injective : Function.Injective Inlet.hook := by
  rintro (one | one) (other | other) same <;> simp_all [Inlet.hook]

theorem Outlet.hook_injective : Function.Injective Outlet.hook := by
  rintro (one | one) (other | other) same <;> simp_all [Outlet.hook]

namespace Graph

variable {graph next : Graph} {outs : Source → List Pipe} {ins : Sink → List Pipe}

/-- An array of optional parts is known by what it answers, if its size is known. -/
theorem eq_of_join {Part : Type} {parts others : Array (Option Part)}
    (size : parts.size = others.size)
    (same : ∀ index : Nat, (parts[index]?).join = (others[index]?).join) : parts = others := by
  refine Array.ext size fun index inside inside' => ?_
  have here := same index
  rwa [Array.getElem?_eq_getElem inside, Array.getElem?_eq_getElem inside', Option.join_some,
    Option.join_some] at here

/-- Both sides together hold all links of a pipe. -/
theorem links_eq_of_sides {pipe : Pipe} {links links' : Links}
    (sameOut : graph.outSide = next.outSide) (sameIn : graph.inSide = next.inSide)
    (found : graph.links? pipe = some links) (found' : next.links? pipe = some links') :
    links = links' := by
  have back := congrFun (congrArg Side.back sameOut) pipe
  have back' := congrFun (congrArg Side.back sameIn) pipe
  have later := congrFun (congrArg Side.next sameOut) pipe
  have later' := congrFun (congrArg Side.next sameIn) pipe
  simp only [outSide, inSide, inlet, outlet, nextOut, nextIn, found, found',
    Option.bind_some] at back back' later later'
  have inlets := Option.map_injective Inlet.hook_injective back
  have outlets := Option.map_injective Outlet.hook_injective back'
  obtain ⟨inlet, outlet, nextIn, nextOut⟩ := links
  simp only at inlets outlets later later'
  rw [inlets, outlets, later, later']

/-- Both sides hold all links, and the frame holds the rest. -/
theorem eq_of_sides (sameOut : graph.outSide = next.outSide) (sameIn : graph.inSide = next.inSide)
    (frame : graph.frame = next.frame) : graph = next := by
  have sources : graph.sources = next.sources := by
    refine eq_of_join (congrArg Frame.sources frame) fun index => ?_
    exact congrFun (congrArg Side.head sameOut) ⟨index⟩
  have sinks : graph.sinks = next.sinks := by
    refine eq_of_join (congrArg Frame.sinks frame) fun index => ?_
    exact congrFun (congrArg Side.head sameIn) ⟨index⟩
  have pipes : graph.pipes = next.pipes := by
    refine Array.ext (congrArg Frame.pipes frame) fun index inside inside' => ?_
    have found : graph.links? ⟨index⟩ = some graph.pipes[index] := Array.getElem?_eq_getElem inside
    have found' : next.links? ⟨index⟩ = some next.pipes[index] := Array.getElem?_eq_getElem inside'
    exact links_eq_of_sides sameOut sameIn found found'
  have locks : graph.locks = next.locks := congrArg Frame.locks frame
  have dropped : graph.dropped = next.dropped := congrArg Frame.dropped frame
  obtain ⟨_, _, _, _, _⟩ := graph
  simp only at sources sinks pipes locks dropped
  rw [sources, sinks, pipes, locks, dropped]

/-- The lists and the frame determine a graph. -/
theorem Wired.unique (wired : graph.Wired outs ins) (also : next.Wired outs ins)
    (frame : graph.frame = next.frame) : graph = next :=
  eq_of_sides (wired.outward.unique also.outward) (wired.inward.unique also.inward) frame

end Graph

end MidiTransport.Patchbay
