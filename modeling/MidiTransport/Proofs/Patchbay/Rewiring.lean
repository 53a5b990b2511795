import MidiTransport.Proofs.Patchbay.Chains
import MidiTransport.Proofs.Patchbay.Frame

/-!
# Wiring operations on lists of pipes

Each operation on a wired graph leads to a wired graph, and this module says which lists the
new graph spells. What is added has no links. Connecting appends a pipe to one list of a
family, or to one list of each family. Disconnecting erases a pipe from all lists. Exchanging
two ends exchanges their lists. An operation that fails leaves the graph alone, and locks
have no part in the wiring.
-/

namespace MidiTransport.Patchbay.Graph

variable {graph : Graph} {pipe : Pipe} {source : Source} {sink : Sink} {links : Links}
  {outs : Source → List Pipe} {ins : Sink → List Pipe}

/-! ## Adding -/

theorem empty_wired : Graph.empty.Wired (fun _ => []) (fun _ => []) where
  outward := ⟨fun _ => rfl, fun _ => trivial, fun _ _ => ⟨rfl, rfl⟩⟩
  inward := ⟨fun _ => rfl, fun _ => trivial, fun _ _ => ⟨rfl, rfl⟩⟩

/-- An array that grows by nothing at its end answers as before. -/
theorem join_push_none {Part : Type} (parts : Array (Option Part)) (index : Nat) :
    ((parts.push none)[index]?).join = (parts[index]?).join := by
  rw [Array.getElem?_push]
  split
  · rename_i new
    simp [new]
  · rfl

theorem outSide_addSource (graph : Graph) : graph.addSource.1.outSide = graph.outSide := by
  refine Side.ext ?_ rfl rfl
  ext1 source
  exact join_push_none graph.sources source.index

theorem inSide_addSink (graph : Graph) : graph.addSink.1.inSide = graph.inSide := by
  refine Side.ext ?_ rfl rfl
  ext1 sink
  exact join_push_none graph.sinks sink.index

/-- Any part of the links of all pipes that a loose pipe does not have. -/
theorem bind_addPipe {Part : Type} (read : Links → Option Part) (loose : read .loose = none)
    (graph : Graph) :
    (fun pipe => (graph.addPipe.1.links? pipe).bind read) =
      fun pipe => (graph.links? pipe).bind read := by
  ext1 pipe
  unfold links? addPipe
  rw [Array.getElem?_push]
  split
  · rename_i new
    simp [new, loose]
  · rfl

theorem outSide_addPipe (graph : Graph) : graph.addPipe.1.outSide = graph.outSide := by
  refine Side.ext rfl (bind_addPipe (·.nextOut) rfl graph) ?_
  rw [outSide_back, outSide_back]
  exact bind_addPipe _ rfl graph

theorem inSide_addPipe (graph : Graph) : graph.addPipe.1.inSide = graph.inSide := by
  refine Side.ext rfl (bind_addPipe (·.nextIn) rfl graph) ?_
  rw [inSide_back, inSide_back]
  exact bind_addPipe _ rfl graph

/-- The same links in graphs of the same size. Walks, which the number of pipes bounds, ask for
nothing else. -/
structure SameLinks (graph next : Graph) : Prop where
  outSide : next.outSide = graph.outSide
  inSide : next.inSide = graph.inSide
  size : next.pipes.size = graph.pipes.size

namespace SameLinks

theorem refl (graph : Graph) : graph.SameLinks graph := ⟨rfl, rfl, rfl⟩

theorem trans {next final : Graph} (first : graph.SameLinks next)
    (second : next.SameLinks final) : graph.SameLinks final :=
  ⟨second.outSide.trans first.outSide, second.inSide.trans first.inSide,
    second.size.trans first.size⟩

end SameLinks

namespace Wired

/-- Only the sides count. -/
theorem of_sides {other : Graph} (wired : graph.Wired outs ins)
    (sameOut : other.outSide = graph.outSide) (sameIn : other.inSide = graph.inSide) :
    other.Wired outs ins := by
  constructor
  · rw [sameOut]
    exact wired.outward
  · rw [sameIn]
    exact wired.inward

theorem addSource (wired : graph.Wired outs ins) : graph.addSource.1.Wired outs ins :=
  wired.of_sides (outSide_addSource graph) rfl

theorem addSink (wired : graph.Wired outs ins) : graph.addSink.1.Wired outs ins :=
  wired.of_sides rfl (inSide_addSink graph)

theorem addPipe (wired : graph.Wired outs ins) : graph.addPipe.1.Wired outs ins :=
  wired.of_sides (outSide_addPipe graph) (inSide_addPipe graph)

end Wired

/-! ## Conditions -/

@[simp] theorem bind_eq_ok_iff {Mistake : Type} {first second : Except Mistake Unit} :
    (do first; second) = .ok () ↔ first = .ok () ∧ second = .ok () := by
  cases first with
  | error mistake => simp [bind, Except.bind]
  | ok done => simp [bind, Except.bind]

@[simp] theorem requireSource_eq_ok_iff :
    graph.requireSource source = .ok () ↔ graph.knowsSource source = true := by
  unfold requireSource
  split <;> simp_all

@[simp] theorem requireSink_eq_ok_iff :
    graph.requireSink sink = .ok () ↔ graph.knowsSink sink = true := by
  unfold requireSink
  split <;> simp_all

/-- An inlet is free if its pipe exists and hangs on nothing there. -/
theorem requireFreeInlet_eq_ok_iff :
    graph.requireFreeInlet pipe = .ok () ↔
      pipe.index < graph.pipes.size ∧ graph.outSide.back pipe = none := by
  rw [← exists_links_iff, requireFreeInlet]
  cases found : graph.links? pipe with
  | none => simp
  | some links => simp [outSide, inlet, found]

theorem requireFreeOutlet_eq_ok_iff :
    graph.requireFreeOutlet pipe = .ok () ↔
      pipe.index < graph.pipes.size ∧ graph.inSide.back pipe = none := by
  rw [← exists_links_iff, requireFreeOutlet]
  cases found : graph.links? pipe with
  | none => simp
  | some links => simp [inSide, outlet, found]

/-- A pipe is free if it exists and hangs on nothing at either end. -/
theorem requireFree_eq_ok_iff :
    graph.requireFree pipe = .ok () ↔
      pipe.index < graph.pipes.size ∧ graph.outSide.back pipe = none ∧
        graph.inSide.back pipe = none := by
  rw [requireFree, bind_eq_ok_iff, requireFreeInlet_eq_ok_iff, requireFreeOutlet_eq_ok_iff]
  constructor
  · rintro ⟨⟨known, freeInlet⟩, -, freeOutlet⟩
    exact ⟨known, freeInlet, freeOutlet⟩
  · rintro ⟨known, freeInlet, freeOutlet⟩
    exact ⟨⟨known, freeInlet⟩, known, freeOutlet⟩

@[simp] theorem proceed_snd (graph : Graph) (condition : Except WiringError Unit) (next : Graph) :
    (graph.proceed condition next).2 = condition := by
  cases condition <;> rfl

theorem proceed_fst {condition : Except WiringError Unit} (holds : condition = .ok ())
    (graph next : Graph) : (graph.proceed condition next).1 = next := by
  subst holds
  rfl

/-- An attempt either succeeds or leaves the graph alone. -/
theorem proceed_cases (graph : Graph) (condition : Except WiringError Unit) (next : Graph) :
    (graph.proceed condition next).2 = .ok () ∨ (graph.proceed condition next).1 = graph := by
  cases condition with
  | ok done => exact .inl rfl
  | error mistake => exact .inr rfl

/-- A failed attempt leaves the graph alone. -/
theorem proceed_of_failed {condition : Except WiringError Unit} {next : Graph}
    (failed : (graph.proceed condition next).2 ≠ .ok ()) :
    (graph.proceed condition next).1 = graph :=
  (proceed_cases graph condition next).resolve_left failed

/-- Checks that the ones before them imply may be made again without a difference. -/
theorem proceed_again {condition again : Except WiringError Unit} {next : Graph} :
    (condition = .ok () → again = .ok ()) →
      (match condition with
        | .error error => (graph, .error error)
        | .ok () => graph.proceed again next) = graph.proceed condition next := by
  intro implied
  cases condition with
  | error mistake => rfl
  | ok done => rw [implied rfl]

/-- An attempt keeps the frame if its success does. -/
theorem frame_proceed {next : Graph} (condition : Except WiringError Unit)
    (same : next.frame = graph.frame) : (graph.proceed condition next).1.frame = graph.frame := by
  cases condition with
  | ok done => exact same
  | error mistake => rfl

/-! ## Connecting -/

theorem frame_connectInlet (graph : Graph) (source : Source) (pipe : Pipe) :
    (graph.connectInlet source pipe).1.frame = graph.frame :=
  frame_proceed _ (by simp)

theorem frame_connectOutlet (graph : Graph) (pipe : Pipe) (sink : Sink) :
    (graph.connectOutlet pipe sink).1.frame = graph.frame :=
  frame_proceed _ (by simp)

/-- A known source takes a known pipe that hangs on nothing at its inlet. -/
theorem connectInlet_eq_ok_iff :
    (graph.connectInlet source pipe).2 = .ok () ↔
      graph.knowsSource source = true ∧ pipe.index < graph.pipes.size ∧
        graph.outSide.back pipe = none := by
  rw [connectInlet, proceed_snd, bind_eq_ok_iff, requireSource_eq_ok_iff,
    requireFreeInlet_eq_ok_iff]

/-- A known sink takes a known pipe that hangs on nothing at its outlet. -/
theorem connectOutlet_eq_ok_iff :
    (graph.connectOutlet pipe sink).2 = .ok () ↔
      graph.knowsSink sink = true ∧ pipe.index < graph.pipes.size ∧
        graph.inSide.back pipe = none := by
  rw [connectOutlet, proceed_snd, bind_eq_ok_iff, requireSink_eq_ok_iff,
    requireFreeOutlet_eq_ok_iff]

/-- What a connection asks for first is all that it asks for: the conditions of the inlet and, when
the inlet has been connected, those of the outlet are met. So a connection happens at both sides or
at none. -/
theorem connect_eq (graph : Graph) (source : Source) (pipe : Pipe) (sink : Sink) :
    graph.connect source pipe sink =
      graph.proceed
        (do graph.requireSource source; graph.requireSink sink; graph.requireFree pipe)
        ((graph.attachInlet source pipe).attachOutlet pipe sink) := by
  unfold connect
  dsimp only
  cases condition : (do
      graph.requireSource source; graph.requireSink sink; graph.requireFree pipe) with
  | error mistake => rfl
  | ok done =>
    rw [bind_eq_ok_iff, bind_eq_ok_iff, requireSource_eq_ok_iff, requireSink_eq_ok_iff,
      requireFree_eq_ok_iff] at condition
    obtain ⟨knownSource, knownSink, known, freeInlet, freeOutlet⟩ := condition
    have same := frame_attachInlet graph source pipe
    have inletDone := connectInlet_eq_ok_iff.mpr ⟨knownSource, known, freeInlet⟩
    have outletDone : ((graph.attachInlet source pipe).connectOutlet pipe sink).2 = .ok () := by
      rw [connectOutlet_eq_ok_iff, knowsSink_of_frame same, size_of_frame same,
        inSide_attachInlet]
      exact ⟨knownSink, known, freeOutlet⟩
    rw [connectInlet, proceed_snd] at inletDone
    rw [connectOutlet, proceed_snd] at outletDone
    rw [connectInlet, inletDone]
    dsimp only [proceed]
    rw [connectOutlet, outletDone]
    rfl

theorem frame_connect (graph : Graph) (source : Source) (pipe : Pipe) (sink : Sink) :
    (graph.connect source pipe sink).1.frame = graph.frame := by
  rw [connect_eq]
  exact frame_proceed _ (by simp)

/-- A connection that fails has connected neither side. -/
theorem connect_of_failed (failed : (graph.connect source pipe sink).2 ≠ .ok ()) :
    (graph.connect source pipe sink).1 = graph := by
  rw [connect_eq] at failed ⊢
  exact proceed_of_failed failed

/-- All that a connection asks for. -/
theorem connect_eq_ok_iff_free :
    (graph.connect source pipe sink).2 = .ok () ↔
      graph.knowsSource source = true ∧ graph.knowsSink sink = true ∧
        graph.requireFree pipe = .ok () := by
  rw [connect_eq, proceed_snd]
  simp only [bind_eq_ok_iff, requireSource_eq_ok_iff, requireSink_eq_ok_iff]

/-- Both ends of a pipe are connected if both can be. -/
theorem connect_eq_ok_iff :
    (graph.connect source pipe sink).2 = .ok () ↔
      (graph.connectInlet source pipe).2 = .ok () ∧
        (graph.connectOutlet pipe sink).2 = .ok () := by
  rw [connect_eq_ok_iff_free, connectInlet_eq_ok_iff, connectOutlet_eq_ok_iff,
    requireFree_eq_ok_iff]
  constructor
  · rintro ⟨knownSource, knownSink, known, freeInlet, freeOutlet⟩
    exact ⟨⟨knownSource, known, freeInlet⟩, knownSink, known, freeOutlet⟩
  · rintro ⟨⟨knownSource, known, freeInlet⟩, knownSink, -, freeOutlet⟩
    exact ⟨knownSource, knownSink, known, freeInlet, freeOutlet⟩

/-- Either nothing happens, or both directions could be connected before and are connected one
after the other. -/
theorem connectBoth_cases (graph : Graph) (sourceA : Source) (sinkA : Sink)
    (forward backward : Pipe) (sourceB : Source) (sinkB : Sink) :
    (∃ mistake, graph.connectBoth sourceA sinkA forward backward sourceB sinkB =
        (graph, .error mistake) ∧
      ¬ ((graph.connect sourceA forward sinkB).2 = .ok () ∧
        (graph.connect sourceB backward sinkA).2 = .ok ())) ∨
      (graph.connect sourceA forward sinkB).2 = .ok () ∧
        (graph.connect sourceB backward sinkA).2 = .ok () ∧
        graph.connectBoth sourceA sinkA forward backward sourceB sinkB =
          (graph.connect sourceA forward sinkB).1.connect sourceB backward sinkA := by
  unfold connectBoth
  dsimp only
  split
  · rename_i mistake refused
    refine .inl ⟨mistake, rfl, fun both => ?_⟩
    rw [connect_eq_ok_iff_free, connect_eq_ok_iff_free] at both
    obtain ⟨⟨-, -, freeForward⟩, knownSource, knownSink, freeBackward⟩ := both
    simp [freeForward, freeBackward, requireSource, requireSink, knownSource, knownSink, bind,
      Except.bind] at refused
  · rename_i met
    simp only [bind_eq_ok_iff, requireSource_eq_ok_iff, requireSink_eq_ok_iff] at met
    obtain ⟨-, freeBackward, knownSource, knownSink⟩ := met
    -- The second direction was free before the first one, which is all that the graph is asked
    -- for.
    have second := connect_eq_ok_iff_free.mpr ⟨knownSource, knownSink, freeBackward⟩
    split
    · rename_i next connected
      have first := congrArg Prod.snd connected
      rw [connected] at first ⊢
      exact .inr ⟨rfl, second, rfl⟩
    · rename_i next mistake refused
      have failed : (graph.connect sourceA forward sinkB).2 ≠ .ok () := by simp [refused]
      have same := connect_of_failed failed
      rw [refused] at same
      obtain rfl : next = graph := same
      exact .inl ⟨mistake, rfl, fun both => failed both.1⟩

namespace Wired

/-- A pipe is attached at the end of the list of its source. -/
theorem attachInlet (wired : graph.Wired outs ins) (known : graph.knowsSource source = true)
    (exists_pipe : pipe.index < graph.pipes.size) (free : graph.outSide.back pipe = none) :
    (graph.attachInlet source pipe).Wired
      (Function.update outs source (outs source ++ [pipe])) ins := by
  obtain ⟨links, found⟩ := exists_links_iff.mpr exists_pipe
  constructor
  · rw [outSide_attachInlet known found, wired.outChain_eq]
    · exact wired.outward.attach free source
    · intro last member
      rw [wired.outChain_eq] at member
      constructor
      · rintro rfl
        exact wired.outward.not_mem_of_back free source member
      · exact exists_links_iff.mpr (wired.index_lt_of_mem_outs member)
  · rw [inSide_attachInlet]
    exact wired.inward

/-- A pipe is attached at the end of the list of its sink. -/
theorem attachOutlet (wired : graph.Wired outs ins) (known : graph.knowsSink sink = true)
    (exists_pipe : pipe.index < graph.pipes.size) (free : graph.inSide.back pipe = none) :
    (graph.attachOutlet pipe sink).Wired outs
      (Function.update ins sink (ins sink ++ [pipe])) := by
  obtain ⟨links, found⟩ := exists_links_iff.mpr exists_pipe
  constructor
  · rw [outSide_attachOutlet]
    exact wired.outward
  · rw [inSide_attachOutlet known found, wired.inChain_eq]
    · exact wired.inward.attach free sink
    · intro last member
      rw [wired.inChain_eq] at member
      constructor
      · rintro rfl
        exact wired.inward.not_mem_of_back free sink member
      · exact exists_links_iff.mpr (wired.index_lt_of_mem_ins member)

/-- A pipe that is connected to a source comes to the end of its list. -/
theorem connectInlet (wired : graph.Wired outs ins)
    (done : (graph.connectInlet source pipe).2 = .ok ()) :
    (graph.connectInlet source pipe).1.Wired
      (Function.update outs source (outs source ++ [pipe])) ins := by
  obtain ⟨known, exists_pipe, free⟩ := connectInlet_eq_ok_iff.mp done
  rw [Graph.connectInlet, proceed_snd] at done
  rw [Graph.connectInlet, proceed_fst done]
  exact wired.attachInlet known exists_pipe free

/-- A pipe that is connected to a sink comes to the end of its list. -/
theorem connectOutlet (wired : graph.Wired outs ins)
    (done : (graph.connectOutlet pipe sink).2 = .ok ()) :
    (graph.connectOutlet pipe sink).1.Wired outs
      (Function.update ins sink (ins sink ++ [pipe])) := by
  obtain ⟨known, exists_pipe, free⟩ := connectOutlet_eq_ok_iff.mp done
  rw [Graph.connectOutlet, proceed_snd] at done
  rw [Graph.connectOutlet, proceed_fst done]
  exact wired.attachOutlet known exists_pipe free

/-- A pipe that is connected to both comes to the end of both lists. -/
theorem connect (wired : graph.Wired outs ins)
    (done : (graph.connect source pipe sink).2 = .ok ()) :
    (graph.connect source pipe sink).1.Wired
      (Function.update outs source (outs source ++ [pipe]))
      (Function.update ins sink (ins sink ++ [pipe])) := by
  obtain ⟨inletDone, outletDone⟩ := connect_eq_ok_iff.mp done
  obtain ⟨knownSource, exists_pipe, freeInlet⟩ := connectInlet_eq_ok_iff.mp inletDone
  obtain ⟨knownSink, -, freeOutlet⟩ := connectOutlet_eq_ok_iff.mp outletDone
  rw [connect_eq, proceed_snd] at done
  rw [connect_eq, proceed_fst done]
  have same := frame_attachInlet graph source pipe
  refine (wired.attachInlet knownSource exists_pipe freeInlet).attachOutlet ?_ ?_ ?_
  · rw [knowsSink_of_frame same]
    exact knownSink
  · rw [size_of_frame same]
    exact exists_pipe
  · rw [inSide_attachInlet]
    exact freeOutlet

end Wired

/-! ## Disconnecting -/

theorem knowsSource_of_outHead (leads : graph.outHead source = some pipe) :
    graph.knowsSource source = true := by
  have inside : source.index < graph.sources.size := by
    by_contra outside
    simp [outHead, Nat.le_of_not_lt outside] at leads
  simpa [knowsSource] using inside

theorem knowsSink_of_inHead (leads : graph.inHead sink = some pipe) :
    graph.knowsSink sink = true := by
  have inside : sink.index < graph.sinks.size := by
    by_contra outside
    simp [inHead, Nat.le_of_not_lt outside] at leads
  simpa [knowsSink] using inside

theorem HasInlet.of_frame {next : Graph} {place : Inlet} (has : graph.HasInlet place)
    (same : next.frame = graph.frame) : next.HasInlet place := by
  cases place with
  | source source => exact (knowsSource_of_frame same source).trans has
  | pipe before =>
    rw [HasInlet, exists_links_iff, size_of_frame same]
    exact exists_links_iff.mp has

theorem HasOutlet.of_frame {next : Graph} {place : Outlet} (has : graph.HasOutlet place)
    (same : next.frame = graph.frame) : next.HasOutlet place := by
  cases place with
  | sink sink => exact (knowsSink_of_frame same sink).trans has
  | pipe before =>
    rw [HasOutlet, exists_links_iff, size_of_frame same]
    exact exists_links_iff.mp has

/-- A graph with one pipe taken out of its chains, which had these links. -/
def unlink (graph : Graph) (pipe : Pipe) (links : Links) : Graph :=
  ((graph.modifyLinks pipe fun _ => .loose).closeOutlet links).closeInlet links

theorem frame_unlink (graph : Graph) (pipe : Pipe) (links : Links) :
    (graph.unlink pipe links).frame = graph.frame := by
  simp [unlink]

/-- A pipe is free on both sides, or it is taken out of its chains. -/
theorem disconnect_cases (graph : Graph) (pipe : Pipe) :
    graph.disconnect pipe = (graph, false) ∧
        graph.outSide.back pipe = none ∧ graph.inSide.back pipe = none ∨
      ∃ links, graph.links? pipe = some links ∧ ¬(links.inlet = none ∧ links.outlet = none) ∧
        graph.disconnect pipe = ((graph.unlink pipe links).releaseOrphans, true) := by
  unfold disconnect
  cases found : graph.links? pipe with
  | none => exact .inl ⟨rfl, by simp [outSide, inlet, found], by simp [inSide, outlet, found]⟩
  | some links =>
    dsimp only
    split
    · rename_i free
      obtain ⟨noInlet, noOutlet⟩ : links.inlet = none ∧ links.outlet = none := by simpa using free
      exact .inl ⟨rfl, by simp [outSide, inlet, found, noInlet],
        by simp [inSide, outlet, found, noOutlet]⟩
    · rename_i bound
      exact .inr ⟨links, rfl, by simpa using bound, rfl⟩

/-- Disconnect several pipes, one after the other. -/
def disconnectAll (graph : Graph) (pipes : List Pipe) : Graph :=
  pipes.foldl (fun graph pipe => (graph.disconnect pipe).1) graph

namespace Wired

/-- What a pipe hangs on at its inlet exists. -/
theorem hasInlet (wired : graph.Wired outs ins) {place : Inlet}
    (hangs : graph.outSide.back pipe = some place.hook) : graph.HasInlet place := by
  cases place with
  | source source => exact knowsSource_of_outHead (wired.outward.head_iff.mpr hangs)
  | pipe before =>
    obtain ⟨source, member⟩ := wired.outward.exists_mem_before hangs
    exact exists_links_iff.mpr (wired.index_lt_of_mem_outs member)

/-- What a pipe hangs on at its outlet exists. -/
theorem hasOutlet (wired : graph.Wired outs ins) {place : Outlet}
    (hangs : graph.inSide.back pipe = some place.hook) : graph.HasOutlet place := by
  cases place with
  | sink sink => exact knowsSink_of_inHead (wired.inward.head_iff.mpr hangs)
  | pipe before =>
    obtain ⟨sink, member⟩ := wired.inward.exists_mem_before hangs
    exact exists_links_iff.mpr (wired.index_lt_of_mem_ins member)

/-- The pipe that comes after another one at a source exists. -/
theorem exists_nextOut (wired : graph.Wired outs ins) {next : Pipe}
    (leads : graph.outSide.next pipe = some next) : next.index < graph.pipes.size := by
  obtain ⟨source, member⟩ := wired.outward.exists_mem_next leads
  exact wired.index_lt_of_mem_outs member

/-- The pipe that comes after another one at a sink exists. -/
theorem exists_nextIn (wired : graph.Wired outs ins) {next : Pipe}
    (leads : graph.inSide.next pipe = some next) : next.index < graph.pipes.size := by
  obtain ⟨sink, member⟩ := wired.inward.exists_mem_next leads
  exact wired.index_lt_of_mem_ins member

/-- The gap at a source is closed, whether there is one or not. -/
theorem outSide_unlink (wired : graph.Wired outs ins) (found : graph.links? pipe = some links) :
    (graph.unlink pipe links).outSide = graph.outSide.detach pipe := by
  have back : graph.outSide.back pipe = links.inlet.map (·.hook) := by
    simp [outSide, inlet, found]
  have next : graph.outSide.next pipe = links.nextOut := by simp [outSide, nextOut, found]
  have loosened := outSide_modifyLinks found fun _ => Links.loose
  unfold unlink
  cases hangs : links.inlet with
  | none =>
    rw [hangs] at back
    have stays : (graph.modifyLinks pipe fun _ => .loose).outSide = graph.outSide := by
      rw [loosened]
      exact wired.outward.loosen_free back
    rw [wired.outward.detach_free back, closeInlet, hangs]
    dsimp only
    rw [outSide_closeOutlet, stays]
  | some place =>
    rw [hangs] at back
    have same : ((graph.modifyLinks pipe fun _ => .loose).closeOutlet links).frame =
        graph.frame := by simp
    rw [outSide_closeInlet hangs, outSide_closeOutlet, loosened, ← next]
    · exact wired.outward.close_loosened back
    · exact (wired.hasInlet back).of_frame same
    · intro later follows
      rw [exists_links_iff, size_of_frame same]
      exact wired.exists_nextOut (next.trans follows)

/-- The gap at a sink is closed, whether there is one or not. -/
theorem inSide_unlink (wired : graph.Wired outs ins) (found : graph.links? pipe = some links) :
    (graph.unlink pipe links).inSide = graph.inSide.detach pipe := by
  have back : graph.inSide.back pipe = links.outlet.map (·.hook) := by
    simp [inSide, outlet, found]
  have next : graph.inSide.next pipe = links.nextIn := by simp [inSide, nextIn, found]
  have loosened := inSide_modifyLinks found fun _ => Links.loose
  unfold unlink
  rw [inSide_closeInlet]
  cases hangs : links.outlet with
  | none =>
    rw [hangs] at back
    have stays : (graph.modifyLinks pipe fun _ => .loose).inSide = graph.inSide := by
      rw [loosened]
      exact wired.inward.loosen_free back
    rw [wired.inward.detach_free back, closeOutlet, hangs]
    exact stays
  | some place =>
    rw [hangs] at back
    have same := frame_modifyLinks graph pipe fun _ => .loose
    rw [inSide_closeOutlet hangs, loosened, ← next]
    · exact wired.inward.close_loosened back
    · exact (wired.hasOutlet back).of_frame same
    · intro later follows
      rw [exists_links_iff, size_of_frame same]
      exact wired.exists_nextIn (next.trans follows)

/-- A pipe that is disconnected is erased from all lists. -/
theorem disconnect (wired : graph.Wired outs ins) (pipe : Pipe) :
    (graph.disconnect pipe).1.Wired (fun source => (outs source).erase pipe)
      fun sink => (ins sink).erase pipe := by
  suffices sides : (graph.disconnect pipe).1.outSide = graph.outSide.detach pipe ∧
      (graph.disconnect pipe).1.inSide = graph.inSide.detach pipe by
    constructor
    · rw [sides.1]
      exact wired.outward.detach pipe
    · rw [sides.2]
      exact wired.inward.detach pipe
  rcases graph.disconnect_cases pipe with ⟨same, freeOut, freeIn⟩ | ⟨links, found, -, taken⟩
  · rw [same, wired.outward.detach_free freeOut, wired.inward.detach_free freeIn]
    exact ⟨rfl, rfl⟩
  · rw [taken, outSide_releaseOrphans, inSide_releaseOrphans]
    exact ⟨wired.outSide_unlink found, wired.inSide_unlink found⟩

/-- Several pipes that are disconnected are erased from all lists. -/
theorem disconnectAll (wired : graph.Wired outs ins) (pipes : List Pipe) :
    (graph.disconnectAll pipes).Wired (fun source => (outs source).diff pipes)
      fun sink => (ins sink).diff pipes := by
  induction pipes generalizing graph outs ins with
  | nil => simpa [Graph.disconnectAll] using wired
  | cons pipe rest ih =>
    simp only [List.diff_cons]
    exact ih (wired.disconnect pipe)

/-- Disconnecting the first pipe of a source several times takes the pipes of its list. -/
theorem disconnectOut_eq (wired : graph.Wired outs ins) (source : Source) (times : Nat) :
    Graph.disconnectOut source times graph =
      graph.disconnectAll ((outs source).take times) := by
  induction times generalizing graph outs ins with
  | zero => rfl
  | succ times ih =>
    have head : graph.outHead source = (outs source).head? := wired.outward.head source
    unfold Graph.disconnectOut
    cases list : outs source with
    | nil =>
      rw [head, list]
      rfl
    | cons first rest =>
      rw [head, list]
      have later := ih (wired.disconnect first)
      rwa [list, List.erase_cons_head] at later

/-- Disconnecting the first pipe of a sink several times takes the pipes of its list. -/
theorem disconnectIn_eq (wired : graph.Wired outs ins) (sink : Sink) (times : Nat) :
    Graph.disconnectIn sink times graph = graph.disconnectAll ((ins sink).take times) := by
  induction times generalizing graph outs ins with
  | zero => rfl
  | succ times ih =>
    have head : graph.inHead sink = (ins sink).head? := wired.inward.head sink
    unfold Graph.disconnectIn
    cases list : ins sink with
    | nil =>
      rw [head, list]
      rfl
    | cons first rest =>
      rw [head, list]
      have later := ih (wired.disconnect first)
      rwa [list, List.erase_cons_head] at later

/-- All pipes of a source are disconnected. -/
theorem disconnectSource_eq (wired : graph.Wired outs ins) (source : Source) :
    graph.disconnectSource source = graph.disconnectAll (outs source) := by
  rw [Graph.disconnectSource, wired.disconnectOut_eq,
    List.take_of_length_le (wired.length_outs_le source)]

/-- All pipes of a sink are disconnected. -/
theorem disconnectSink_eq (wired : graph.Wired outs ins) (sink : Sink) :
    graph.disconnectSink sink = graph.disconnectAll (ins sink) := by
  rw [Graph.disconnectSink, wired.disconnectIn_eq,
    List.take_of_length_le (wired.length_ins_le sink)]

end Wired

end MidiTransport.Patchbay.Graph
