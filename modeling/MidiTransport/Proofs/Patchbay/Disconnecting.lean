import MidiTransport.Proofs.Patchbay.Exclusivity
import MidiTransport.Proofs.Patchbay.Identity

/-!
# Disconnecting

Disconnecting a pipe takes this pipe out of its chains and nothing else (`LosesPipe`). Of the
locks, exactly those stay whose owners still reach their sinks (`Cuts.locks_eq`), so the locks
behind several disconnections depend on the wiring behind them and on nothing in between. The
wiring depends on the pipes that are gone, in whatever order they went. So the order of
disconnections leaves no trace (`Wired.disconnectAll_perm`).
-/

namespace MidiTransport.Patchbay.Graph

variable {graph next : Graph} {pipe : Pipe} {source : Source} {sink : Sink}
  {outs : Source → List Pipe} {ins : Sink → List Pipe}

/-! ## Locks -/

/-- What is left of a list without repetitions is known by its members. -/
theorem eq_filter_of_sublist {Part : Type} {parts all : List Part} {stays : Part → Bool}
    (fewer : parts.Sublist all) (single : all.Nodup) (stay : ∀ part ∈ parts, stays part = true)
    (kept : ∀ part ∈ all, stays part = true → part ∈ parts) : parts = all.filter stays := by
  have within : parts.Sublist (all.filter stays) := by
    rw [← List.filter_eq_self.mpr stay]
    exact fewer.filter stays
  have covers : all.filter stays ⊆ parts := fun part member =>
    kept part (List.mem_of_mem_filter member) (List.mem_filter.mp member).2
  exact within.eq_of_length_le (List.subperm_of_subset (single.filter stays) covers).length_le

namespace Cuts

/-- Exactly those locks stay whose owners still reach their sinks. -/
theorem locks_eq (cuts : graph.Cuts next) (guarded : graph.Guarded) :
    next.locks = graph.locks.filter fun lock => (next.sinksOf lock.owner).contains lock.sink := by
  apply eq_filter_of_sublist cuts.remaining guarded.single.of_map
  · intro lock member
    simpa using cuts.reached guarded.reached lock member
  · intro lock member reached
    exact cuts.kept lock member (by simpa using reached)

end Cuts

/-! ## One pipe -/

/-- The answer tells whether a pipe was connected. -/
theorem disconnect_snd :
    (graph.disconnect pipe).2 = true ↔ graph.inlet pipe ≠ none ∨ graph.outlet pipe ≠ none := by
  rcases graph.disconnect_cases pipe with ⟨same, freeOut, freeIn⟩ | ⟨links, found, bound, taken⟩
  · have freeInlet : graph.inlet pipe = none := Option.map_eq_none_iff.mp freeOut
    have freeOutlet : graph.outlet pipe = none := Option.map_eq_none_iff.mp freeIn
    simp [same, freeInlet, freeOutlet]
  · simp [taken, inlet, outlet, found, ← not_and_or, bound]

/-- A pipe that is not connected is left alone. -/
theorem disconnect_of_free (freeInlet : graph.inlet pipe = none)
    (freeOutlet : graph.outlet pipe = none) : graph.disconnect pipe = (graph, false) := by
  rcases graph.disconnect_cases pipe with ⟨same, -, -⟩ | ⟨links, -, -, taken⟩
  · exact same
  · have answer := disconnect_snd.mp (congrArg Prod.snd taken)
    simp [freeInlet, freeOutlet] at answer

/-- The locks are all that changes in the frame. -/
theorem frame_disconnect (graph : Graph) (pipe : Pipe) :
    (graph.disconnect pipe).1.frame =
      { graph.frame with locks := (graph.disconnect pipe).1.locks } := by
  rcases graph.disconnect_cases pipe with ⟨same, -, -⟩ | ⟨links, -, -, taken⟩
  · rw [same]
    rfl
  · rw [taken, releaseOrphans, frame_relock, frame_unlink]

/-- What it is to lose one pipe, and nothing else. -/
structure LosesPipe (graph : Graph) (pipe : Pipe) (next : Graph) : Prop where
  spells : next.Spells (fun source => (graph.outChain source).filter (· != pipe))
    fun sink => (graph.inChain sink).filter (· != pipe)
  unbound : next.inlet pipe = none ∧ next.outlet pipe = none ∧ next.nextIn pipe = none ∧
    next.nextOut pipe = none
  sourceOf : ∀ other, other ≠ pipe → next.sourceOf other = graph.sourceOf other
  sinkOf : ∀ other, other ≠ pipe → next.sinkOf other = graph.sinkOf other
  frame : next.frame =
    { graph.frame with
      locks := graph.locks.filter fun lock => (next.sinksOf lock.owner).contains lock.sink }

namespace Wired

/-- All other pipes keep their sources. -/
theorem sourceOf_disconnect (wired : graph.Wired outs ins) {other : Pipe} (apart : other ≠ pipe) :
    (graph.disconnect pipe).1.sourceOf other = graph.sourceOf other := by
  ext1 source
  rw [(wired.disconnect pipe).spells.sourceOf, wired.spells.sourceOf, List.mem_erase_of_ne apart]

theorem sinkOf_disconnect (wired : graph.Wired outs ins) {other : Pipe} (apart : other ≠ pipe) :
    (graph.disconnect pipe).1.sinkOf other = graph.sinkOf other := by
  ext1 sink
  rw [(wired.disconnect pipe).spells.sinkOf, wired.spells.sinkOf, List.mem_erase_of_ne apart]

/-- A pipe that has been disconnected has no links on either side. -/
theorem unbound_disconnect (wired : graph.Wired outs ins) (pipe : Pipe) :
    let next := (graph.disconnect pipe).1
    next.inlet pipe = none ∧ next.outlet pipe = none ∧ next.nextIn pipe = none ∧
      next.nextOut pipe = none := by
  have after := wired.disconnect pipe
  obtain ⟨freeOut, lastOut⟩ := after.outward.loose pipe fun source =>
    (wired.outward.nodup source).not_mem_erase
  obtain ⟨freeIn, lastIn⟩ := after.inward.loose pipe fun sink =>
    (wired.inward.nodup sink).not_mem_erase
  exact ⟨Option.map_eq_none_iff.mp freeOut, Option.map_eq_none_iff.mp freeIn, lastIn, lastOut⟩

/-- Disconnecting takes one pipe out of its lists, and the locks that nothing leads to any more. -/
theorem losesPipe_disconnect (wired : graph.Wired outs ins) (guarded : graph.Guarded)
    (pipe : Pipe) : graph.LosesPipe pipe (graph.disconnect pipe).1 where
  spells := by
    have after := (wired.disconnect pipe).spells
    simp only [fun source => (wired.outward.nodup source).erase_eq_filter pipe,
      fun sink => (wired.inward.nodup sink).erase_eq_filter pipe] at after
    rwa [wired.outChain_eq, wired.inChain_eq]
  unbound := wired.unbound_disconnect pipe
  sourceOf _ apart := wired.sourceOf_disconnect apart
  sinkOf _ apart := wired.sinkOf_disconnect apart
  frame := by
    rw [frame_disconnect, ← (wired.cuts_disconnect pipe).locks_eq guarded]

/-- A second time there is nothing to disconnect. -/
theorem disconnect_disconnect (wired : graph.Wired outs ins) (pipe : Pipe) :
    (graph.disconnect pipe).1.disconnect pipe = ((graph.disconnect pipe).1, false) := by
  obtain ⟨freeInlet, freeOutlet, -⟩ := wired.unbound_disconnect pipe
  exact disconnect_of_free freeInlet freeOutlet

end Wired

/-! ## Several pipes -/

/-- Disconnecting pipes changes the locks at most. -/
theorem frame_disconnectAll (graph : Graph) (pipes : List Pipe) :
    (graph.disconnectAll pipes).frame =
      { graph.frame with locks := (graph.disconnectAll pipes).locks } := by
  induction pipes generalizing graph with
  | nil => rfl
  | cons pipe rest ih =>
    have first := graph.frame_disconnect pipe
    have later := ih (graph.disconnect pipe).1
    rw [first] at later
    exact later

namespace Wired

/-- The order of disconnections leaves no trace. -/
theorem disconnectAll_perm (wired : graph.Wired outs ins) (guarded : graph.Guarded)
    {pipes others : List Pipe} (perm : pipes.Perm others) :
    graph.disconnectAll pipes = graph.disconnectAll others := by
  have after := wired.disconnectAll pipes
  have after' := wired.disconnectAll others
  simp only [perm.diff_left] at after
  have sameOut := after.outward.unique after'.outward
  have sameIn := after.inward.unique after'.inward
  have frame := graph.frame_disconnectAll pipes
  have frame' := graph.frame_disconnectAll others
  -- Both graphs have as many pipes, so they agree on what sources reach, and hence on the locks.
  have size := (congrArg Frame.pipes frame).trans (congrArg Frame.pipes frame').symm
  have reach := SameLinks.sinksOf ⟨sameOut, sameIn, size⟩
  have locks := (wired.cuts_disconnectAll pipes).locks_eq guarded
  have locks' := (wired.cuts_disconnectAll others).locks_eq guarded
  rw [reach, ← locks'] at locks
  refine eq_of_sides sameOut sameIn ?_
  rw [frame, frame', locks]

end Wired

/-! ## All pipes of one end -/

/-- Disconnecting the first pipe of an end again and again, for as long as there is one, comes to
an end in a graph. -/
inductive Empties (head : Graph → Option Pipe) : Graph → Graph → Prop where
  | done {graph : Graph} (nothing : head graph = none) : Empties head graph graph
  | step {graph final : Graph} {pipe : Pipe} (first : head graph = some pipe)
      (later : Empties head (graph.disconnect pipe).1 final) : Empties head graph final

namespace Wired

/-- Disconnecting the first pipe again and again takes all pipes of a source in order. -/
theorem empties_source (wired : graph.Wired outs ins) (source : Source) :
    Empties (·.outHead source) graph (graph.disconnectAll (outs source)) := by
  have head : graph.outHead source = (outs source).head? := wired.outward.head source
  induction list : outs source generalizing graph outs ins with
  | nil =>
    rw [list] at head
    exact .done head
  | cons pipe rest ih =>
    rw [list] at head
    have after := wired.disconnect pipe
    exact .step head (ih after (after.outward.head source) (by rw [list, List.erase_cons_head]))

theorem empties_sink (wired : graph.Wired outs ins) (sink : Sink) :
    Empties (·.inHead sink) graph (graph.disconnectAll (ins sink)) := by
  have head : graph.inHead sink = (ins sink).head? := wired.inward.head sink
  induction list : ins sink generalizing graph outs ins with
  | nil =>
    rw [list] at head
    exact .done head
  | cons pipe rest ih =>
    rw [list] at head
    have after := wired.disconnect pipe
    exact .step head (ih after (after.inward.head sink) (by rw [list, List.erase_cons_head]))

end Wired

/-- In every run, disconnecting a pipe takes out this pipe and the locks that lose their way, and
tells whether there was anything to take. Disconnecting several pipes comes to the same in any
order. Disconnecting the first pipe of a source or a sink until there is none comes to an end, and
disconnects all pipes in its list. -/
theorem disconnections_of_run (operations : List Operation) :
    (∀ pipe,
      (run operations).LosesPipe pipe ((run operations).disconnect pipe).1 ∧
      (((run operations).disconnect pipe).2 = true ↔
        (run operations).inlet pipe ≠ none ∨ (run operations).outlet pipe ≠ none) ∧
      ((run operations).disconnect pipe).1.disconnect pipe =
        (((run operations).disconnect pipe).1, false)) ∧
    (∀ pipes others, pipes.Perm others →
      (run operations).disconnectAll pipes = (run operations).disconnectAll others) ∧
    (∀ source,
      Empties (·.outHead source) (run operations) ((run operations).disconnectSource source) ∧
      (run operations).disconnectSource source =
        (run operations).disconnectAll ((run operations).outChain source)) ∧
    ∀ sink,
      Empties (·.inHead sink) (run operations) ((run operations).disconnectSink sink) ∧
      (run operations).disconnectSink sink =
        (run operations).disconnectAll ((run operations).inChain sink) := by
  obtain ⟨outs, ins, wired⟩ := run_wired operations
  have guarded := guarded_run operations
  refine ⟨fun pipe => ?_, fun pipes others perm => wired.disconnectAll_perm guarded perm,
    fun source => ?_, fun sink => ?_⟩
  · exact ⟨wired.losesPipe_disconnect guarded pipe, disconnect_snd,
      wired.disconnect_disconnect pipe⟩
  · rw [wired.disconnectSource_eq, wired.outChain_eq]
    exact ⟨wired.empties_source source, rfl⟩
  · rw [wired.disconnectSink_eq, wired.inChain_eq]
    exact ⟨wired.empties_sink sink, rfl⟩

/-- One source has two ways to a sink and has locked it there. With either way the lock stays, and
with both gone, in either order, it goes. -/
theorem disconnections_of_run_lockedSink :
    let graph := run (sharedSinkCalls ++ [.lock ⟨0⟩ .first])
    ([⟨0⟩, ⟨2⟩] : List Pipe).Perm [⟨2⟩, ⟨0⟩] ∧
      graph.disconnectAll [⟨0⟩, ⟨2⟩] = graph.disconnectAll [⟨2⟩, ⟨0⟩] ∧
      graph.LosesPipe ⟨0⟩ (graph.disconnect ⟨0⟩).1 ∧
      (graph.disconnect ⟨0⟩).1.sourceOf ⟨2⟩ = graph.sourceOf ⟨2⟩ ∧
      (graph.disconnect ⟨0⟩).1.locks = graph.locks ∧
      (graph.disconnectAll [⟨0⟩, ⟨2⟩]).locks = [] := by
  intro graph
  obtain ⟨one, several, -⟩ := disconnections_of_run (sharedSinkCalls ++ [.lock ⟨0⟩ .first])
  have perm : ([⟨0⟩, ⟨2⟩] : List Pipe).Perm [⟨2⟩, ⟨0⟩] := .swap _ _ _
  obtain ⟨loses, -⟩ := one ⟨0⟩
  exact ⟨perm, several _ _ perm, loses, loses.sourceOf ⟨2⟩ (by decide), by decide +kernel,
    by decide +kernel⟩

end MidiTransport.Patchbay.Graph
