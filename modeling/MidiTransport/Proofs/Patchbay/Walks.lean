import MidiTransport.Proofs.Patchbay.Operations

/-!
# Walks along the chains

The links of a graph know nothing of lists: a walk goes from pipe to pipe until it comes to
an end, and nothing but the links themselves says that there is one. A `Walk` and a `Climb`
are such walks without a bound, along the pipes of a chain and back to what the chain hangs
on. In every graph that a run leads to they come to an end, and they find what the bounded
walks of a graph find (`chains_of_run`).
-/

namespace MidiTransport.Patchbay

variable {Root : Type}

/-- Going on from a pipe, if there is one, visits these pipes and then ends. -/
inductive Walk (next : Pipe → Option Pipe) : Option Pipe → List Pipe → Prop where
  | finish : Walk next none []
  | step {pipe : Pipe} {rest : List Pipe} (later : Walk next (next pipe) rest) :
    Walk next (some pipe) (pipe :: rest)

/-- Going back from a pipe ends at this root, or at a pipe that hangs on nothing. -/
inductive Climb (back : Pipe → Option (Hook Root)) : Pipe → Option Root → Prop where
  | loose {pipe : Pipe} (free : back pipe = none) : Climb back pipe none
  | top {pipe : Pipe} {root : Root} (hangs : back pipe = some (.root root)) :
    Climb back pipe (some root)
  | step {pipe before : Pipe} {found : Option Root} (hangs : back pipe = some (.pipe before))
    (earlier : Climb back before found) : Climb back pipe found

namespace Side

variable {side : Side Root} {lists : Root → List Pipe} {root : Root} {pipe : Pipe}
  {front back : List Pipe}

/-- The links of a side spell these lists of pipes, place by place. -/
structure Spells (side : Side Root) (lists : Root → List Pipe) : Prop where
  nodup : ∀ root, (lists root).Nodup
  /-- A pipe lies in at most one list. -/
  apart : ∀ root other pipe, pipe ∈ lists root → pipe ∈ lists other → root = other
  head : ∀ root, side.head root = (lists root)[0]?
  next : ∀ root index, ∀ inside : index < (lists root).length,
    side.next (lists root)[index] = (lists root)[index + 1]?
  first : ∀ root, ∀ inside : 0 < (lists root).length,
    side.back (lists root)[0] = some (.root root)
  later : ∀ root index, ∀ inside : index + 1 < (lists root).length,
    side.back (lists root)[index + 1] = some (.pipe (lists root)[index])
  /-- The pipes outside of all lists are those that hang on nothing. -/
  unbound : ∀ pipe, side.back pipe = none ↔ ∀ root, pipe ∉ lists root
  final : ∀ pipe, side.back pipe = none → side.next pipe = none

/-- The root that a pipe hangs on in the end, in as many steps as are allowed. -/
def rootWithin (side : Side Root) : Nat → Pipe → Option Root
  | 0, _ => none
  | steps + 1, pipe =>
    match side.back pipe with
    | none => none
    | some (.root root) => some root
    | some (.pipe before) => side.rootWithin steps before

/-- Following the pipes that are strung finds them in order. -/
theorem Strung.walk {hook : Hook Root} {pipes : List Pipe} (strung : side.Strung hook pipes none) :
    Walk side.next pipes.head? pipes := by
  induction pipes generalizing hook with
  | nil => exact .finish
  | cons pipe rest ih =>
    obtain ⟨-, leads, later⟩ := strung
    apply Walk.step
    rw [leads, Option.or_none]
    exact ih later

namespace Chained

/-- The links of a pipe, found by its place in a list. -/
theorem links_getElem (chained : side.Chained lists) (root : Root) {index : Nat}
    (inside : index < (lists root).length) :
    side.back (lists root)[index] = some ((Hook.root root).behind ((lists root).take index)) ∧
      side.next (lists root)[index] = (lists root)[index + 1]? := by
  have split : lists root =
      (lists root).take index ++ (lists root)[index] :: (lists root).drop (index + 1) := by
    simp
  have links := chained.links_of_split split
  rwa [List.head?_drop] at links

/-- Lists that the links form can be read from them. -/
theorem spells (chained : side.Chained lists) : side.Spells lists where
  nodup := chained.nodup
  apart _ _ _ here there := chained.root_unique here there
  head root := by
    rw [chained.head, List.head?_eq_getElem?]
  next root _ inside := (chained.links_getElem root inside).2
  first root inside := (chained.links_getElem root inside).1
  later root index inside := by
    have before : index < (lists root).length := Nat.lt_of_succ_lt inside
    rw [(chained.links_getElem root inside).1, ← List.take_append_getElem before,
      Hook.behind_concat]
  unbound pipe := by
    constructor
    · exact chained.not_mem_of_back
    · intro absent
      exact (chained.loose pipe absent).1
  final pipe free := (chained.loose pipe (chained.not_mem_of_back free)).2

/-- From its place in a list, a pipe leads back to the root of the list. -/
theorem climb_of_split (chained : side.Chained lists) (split : lists root = front ++ pipe :: back) :
    Climb side.back pipe (some root) := by
  induction front using List.reverseRecOn generalizing pipe back with
  | nil => exact .top (chained.links_of_split split).1
  | append_singleton rest last ih =>
    have hangs := (chained.links_of_split split).1
    rw [Hook.behind_concat] at hangs
    rw [List.append_assoc] at split
    exact .step hangs (ih split)

/-- As many steps as there are pipes in front of a pipe, and one more, are enough. -/
theorem rootWithin_of_split (chained : side.Chained lists)
    (split : lists root = front ++ pipe :: back) {steps : Nat} (enough : front.length < steps) :
    side.rootWithin steps pipe = some root := by
  induction front using List.reverseRecOn generalizing pipe back steps with
  | nil =>
    obtain ⟨steps, rfl⟩ := Nat.exists_eq_succ_of_ne_zero (Nat.ne_of_gt enough)
    simp [rootWithin, (chained.links_of_split split).1]
  | append_singleton rest last ih =>
    obtain ⟨steps, rfl⟩ := Nat.exists_eq_succ_of_ne_zero (Nat.ne_of_gt (Nat.zero_lt_of_lt enough))
    have hangs := (chained.links_of_split split).1
    rw [Hook.behind_concat] at hangs
    rw [List.append_assoc] at split
    rw [List.length_append] at enough
    simpa [rootWithin, hangs] using ih split (Nat.lt_of_succ_lt_succ enough)

/-- Enough steps for each place in each list find exactly the roots of the lists. -/
theorem rootWithin_eq_some_iff (chained : side.Chained lists) {steps : Nat}
    (enough : ∀ root, (lists root).length ≤ steps) :
    side.rootWithin steps pipe = some root ↔ pipe ∈ lists root := by
  have finds {other : Root} (member : pipe ∈ lists other) :
      side.rootWithin steps pipe = some other := by
    obtain ⟨front, back, split⟩ := List.append_of_mem member
    have length := enough other
    rw [split, List.length_append, List.length_cons] at length
    exact chained.rootWithin_of_split split (by omega)
  constructor
  · intro found
    have hangs : side.back pipe ≠ none := by
      intro free
      cases steps <;> simp [rootWithin, free] at found
    obtain ⟨hook, hangs⟩ := Option.ne_none_iff_exists'.mp hangs
    obtain ⟨other, member⟩ := chained.exists_mem_of_back hangs
    obtain rfl : other = root := Option.some.inj ((finds member).symm.trans found)
    exact member
  · exact finds

/-- Going back without a bound ends where the bounded walk ends. -/
theorem climb (chained : side.Chained lists) {steps : Nat}
    (enough : ∀ root, (lists root).length ≤ steps) (pipe : Pipe) :
    Climb side.back pipe (side.rootWithin steps pipe) := by
  cases found : side.rootWithin steps pipe with
  | none =>
    apply Climb.loose
    apply (chained.loose pipe ?_).1
    intro root member
    have finds := (chained.rootWithin_eq_some_iff enough).mpr member
    exact absurd (found.symm.trans finds) (by simp)
  | some root =>
    have member := (chained.rootWithin_eq_some_iff enough).mp found
    obtain ⟨front, back, split⟩ := List.append_of_mem member
    exact chained.climb_of_split split

end Chained

end Side

namespace Graph

variable {graph : Graph} {source : Source} {sink : Sink} {pipe : Pipe}
  {outs : Source → List Pipe} {ins : Sink → List Pipe}

/-- Climbing to the source of a pipe is climbing on the side of the sources. -/
theorem sourceWithin_eq (graph : Graph) (steps : Nat) (pipe : Pipe) :
    graph.sourceWithin steps pipe = graph.outSide.rootWithin steps pipe := by
  induction steps generalizing pipe with
  | zero => rfl
  | succ steps ih =>
    unfold sourceWithin Side.rootWithin
    cases hangs : graph.inlet pipe with
    | none => simp [outSide, hangs]
    | some place =>
      cases place with
      | source source => simp [outSide, hangs, Inlet.hook]
      | pipe before => simpa [outSide, hangs, Inlet.hook] using ih before

theorem sinkWithin_eq (graph : Graph) (steps : Nat) (pipe : Pipe) :
    graph.sinkWithin steps pipe = graph.inSide.rootWithin steps pipe := by
  induction steps generalizing pipe with
  | zero => rfl
  | succ steps ih =>
    unfold sinkWithin Side.rootWithin
    cases hangs : graph.outlet pipe with
    | none => simp [inSide, hangs]
    | some place =>
      cases place with
      | sink sink => simp [inSide, hangs, Outlet.hook]
      | pipe before => simpa [inSide, hangs, Outlet.hook] using ih before

/-- The links of a graph spell these lists, every number in the lists exists, and all walks
along the links, whether bounded or not, follow the lists. -/
structure Spells (graph : Graph) (outs : Source → List Pipe) (ins : Sink → List Pipe) : Prop where
  outward : graph.outSide.Spells outs
  inward : graph.inSide.Spells ins
  known_out : ∀ source, ∀ pipe ∈ outs source,
    graph.knowsSource source = true ∧ pipe.index < graph.pipes.size
  known_in : ∀ sink, ∀ pipe ∈ ins sink,
    graph.knowsSink sink = true ∧ pipe.index < graph.pipes.size
  walk_out : ∀ source, Walk graph.nextOut (graph.outHead source) (outs source)
  walk_in : ∀ sink, Walk graph.nextIn (graph.inHead sink) (ins sink)
  outChain : graph.outChain = outs
  inChain : graph.inChain = ins
  climb_out : ∀ pipe, Climb graph.outSide.back pipe (graph.sourceOf pipe)
  climb_in : ∀ pipe, Climb graph.inSide.back pipe (graph.sinkOf pipe)
  sourceOf : ∀ pipe source, graph.sourceOf pipe = some source ↔ pipe ∈ outs source
  sinkOf : ∀ pipe sink, graph.sinkOf pipe = some sink ↔ pipe ∈ ins sink
  sinksOf : ∀ source, graph.sinksOf source = (outs source).filterMap graph.sinkOf
  sourcesOf : ∀ sink, graph.sourcesOf sink = (ins sink).filterMap graph.sourceOf

namespace Wired

theorem knowsSource_of_mem (wired : graph.Wired outs ins) (member : pipe ∈ outs source) :
    graph.knowsSource source = true := by
  have head := wired.outward.head source
  cases list : outs source with
  | nil => simp [list] at member
  | cons first rest =>
    rw [list] at head
    exact knowsSource_of_outHead head

theorem knowsSink_of_mem (wired : graph.Wired outs ins) (member : pipe ∈ ins sink) :
    graph.knowsSink sink = true := by
  have head := wired.inward.head sink
  cases list : ins sink with
  | nil => simp [list] at member
  | cons first rest =>
    rw [list] at head
    exact knowsSink_of_inHead head

/-- Lists that a graph is wired with can be read from its links on both sides. -/
theorem spells (wired : graph.Wired outs ins) : graph.Spells outs ins where
  outward := wired.outward.spells
  inward := wired.inward.spells
  known_out _ _ member := ⟨wired.knowsSource_of_mem member, wired.index_lt_of_mem_outs member⟩
  known_in _ _ member := ⟨wired.knowsSink_of_mem member, wired.index_lt_of_mem_ins member⟩
  walk_out source := by
    have head : graph.outHead source = (outs source).head? := wired.outward.head source
    rw [head]
    exact (wired.outward.strung source).walk
  walk_in sink := by
    have head : graph.inHead sink = (ins sink).head? := wired.inward.head sink
    rw [head]
    exact (wired.inward.strung sink).walk
  outChain := wired.outChain_eq
  inChain := wired.inChain_eq
  climb_out pipe := by
    rw [Graph.sourceOf, sourceWithin_eq]
    exact wired.outward.climb wired.length_outs_le pipe
  climb_in pipe := by
    rw [Graph.sinkOf, sinkWithin_eq]
    exact wired.inward.climb wired.length_ins_le pipe
  sourceOf pipe source := by
    rw [Graph.sourceOf, sourceWithin_eq]
    exact wired.outward.rootWithin_eq_some_iff wired.length_outs_le
  sinkOf pipe sink := by
    rw [Graph.sinkOf, sinkWithin_eq]
    exact wired.inward.rootWithin_eq_some_iff wired.length_ins_le
  sinksOf source := by
    rw [Graph.sinksOf, wired.outChain_eq]
  sourcesOf sink := by
    rw [Graph.sourcesOf, wired.inChain_eq]

end Wired

/-- The graph behind any run spells a list of pipes for each source and for each sink. A known
pipe outside of the lists of one kind can be connected there. It then comes to the end of the
list of its source or sink, and no other list changes. -/
theorem chains_of_run (operations : List Operation) :
    ∃ outs ins, (run operations).Spells outs ins ∧
      (∀ source pipe,
        (((run operations).connectInlet source pipe).2 = .ok () ↔
          (run operations).knowsSource source = true ∧
            pipe.index < (run operations).pipes.size ∧ ∀ other, pipe ∉ outs other) ∧
        (((run operations).connectInlet source pipe).2 = .ok () →
          ((run operations).connectInlet source pipe).1.Spells
            (Function.update outs source (outs source ++ [pipe])) ins)) ∧
      (∀ pipe sink,
        (((run operations).connectOutlet pipe sink).2 = .ok () ↔
          (run operations).knowsSink sink = true ∧
            pipe.index < (run operations).pipes.size ∧ ∀ other, pipe ∉ ins other) ∧
        (((run operations).connectOutlet pipe sink).2 = .ok () →
          ((run operations).connectOutlet pipe sink).1.Spells outs
            (Function.update ins sink (ins sink ++ [pipe])))) ∧
      ∀ source pipe sink,
        (((run operations).connect source pipe sink).2 = .ok () ↔
          ((run operations).connectInlet source pipe).2 = .ok () ∧
            ((run operations).connectOutlet pipe sink).2 = .ok ()) ∧
        (((run operations).connect source pipe sink).2 = .ok () →
          ((run operations).connect source pipe sink).1.Spells
            (Function.update outs source (outs source ++ [pipe]))
            (Function.update ins sink (ins sink ++ [pipe]))) := by
  obtain ⟨outs, ins, wired⟩ := run_wired operations
  refine ⟨outs, ins, wired.spells, ?_, ?_, ?_⟩
  · intro source pipe
    constructor
    · rw [connectInlet_eq_ok_iff, wired.spells.outward.unbound]
    · intro done
      exact (wired.connectInlet done).spells
  · intro pipe sink
    constructor
    · rw [connectOutlet_eq_ok_iff, wired.spells.inward.unbound]
    · intro done
      exact (wired.connectOutlet done).spells
  · intro source pipe sink
    constructor
    · exact connect_eq_ok_iff
    · intro done
      exact (wired.connect done).spells

/-- A pipe behind another one at a sink, with nothing at its inlet. -/
theorem chains_of_run_secondPipe :
    let graph := run [.addSource, .addSink, .addPipe, .addPipe, .connect ⟨0⟩ ⟨1⟩ ⟨0⟩,
      .unlock ⟨7⟩ .first]
    ∃ outs ins, graph.Spells outs ins ∧ ins ⟨0⟩ = [⟨1⟩] ∧
      (graph.connectOutlet ⟨0⟩ ⟨0⟩).2 = .ok () ∧
      (graph.connectOutlet ⟨0⟩ ⟨0⟩).1.Spells outs (Function.update ins ⟨0⟩ [⟨1⟩, ⟨0⟩]) := by
  intro graph
  obtain ⟨outs, ins, spells, -, connects, -⟩ := chains_of_run
    [.addSource, .addSink, .addPipe, .addPipe, .connect ⟨0⟩ ⟨1⟩ ⟨0⟩, .unlock ⟨7⟩ .first]
  have list : ins ⟨0⟩ = [⟨1⟩] := by
    rw [← spells.inChain]
    decide
  have done : (graph.connectOutlet ⟨0⟩ ⟨0⟩).2 = .ok () := by decide
  have connected := (connects ⟨0⟩ ⟨0⟩).2 done
  rw [list] at connected
  exact ⟨outs, ins, spells, list, done, connected⟩

end Graph

end MidiTransport.Patchbay
