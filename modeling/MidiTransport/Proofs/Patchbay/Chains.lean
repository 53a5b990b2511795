import Mathlib.Data.List.Nodup
import Mathlib.Data.List.Perm.Subperm
import MidiTransport.Proofs.Patchbay.Links

/-!
# The chains of a patchbay

A graph is `Wired` by two families of lists, one list of pipes for each source and one for
each sink, if both of its sides are chained by them. The wiring functions keep a graph wired
and change the lists in the way that their names say. The lists are no more than what the
walks along the chains find (`Wired.outChain_eq`, `Wired.inChain_eq`), because a list
without repetitions is no longer than the number of pipes.
-/

namespace MidiTransport.Patchbay

namespace Side.Chained

variable {Root : Type} {side : Side Root} {lists : Root → List Pipe} {root : Root} {pipe : Pipe}

/-- A pipe that hangs on something has its place in a list. -/
theorem exists_split_of_back {hook : Hook Root} (chained : side.Chained lists)
    (hangs : side.back pipe = some hook) :
    ∃ root front back, lists root = front ++ pipe :: back ∧
      hook = (Hook.root root).behind front := by
  obtain ⟨root, member⟩ := chained.exists_mem_of_back hangs
  obtain ⟨front, back, split⟩ := List.append_of_mem member
  have same := hangs.symm.trans (chained.links_of_split split).1
  exact ⟨root, front, back, split, Option.some.inj same⟩

/-- A pipe that leads to another one has its place in a list right before that. -/
theorem exists_split_of_next {next : Pipe} (chained : side.Chained lists)
    (leads : side.next pipe = some next) :
    ∃ root front back, lists root = front ++ pipe :: next :: back := by
  by_cases loose : ∀ root, pipe ∉ lists root
  · exact absurd ((chained.loose pipe loose).2.symm.trans leads) (by simp)
  · obtain ⟨root, member⟩ := not_forall_not.mp loose
    obtain ⟨front, back, split⟩ := List.append_of_mem member
    have first := (chained.links_of_split split).2.symm.trans leads
    obtain ⟨rest, rfl⟩ := List.head?_eq_some_iff.mp first
    exact ⟨root, front, rest, split⟩

/-- The pipe that a pipe hangs on lies in a list. -/
theorem exists_mem_before {before : Pipe} (chained : side.Chained lists)
    (hangs : side.back pipe = some (.pipe before)) : ∃ root, before ∈ lists root := by
  obtain ⟨root, front, back, split, same⟩ := chained.exists_split_of_back hangs
  refine ⟨root, ?_⟩
  rw [split]
  exact List.mem_append_left _ (Hook.mem_of_behind same.symm)

/-- The pipe that a pipe leads to lies in a list. -/
theorem exists_mem_next {next : Pipe} (chained : side.Chained lists)
    (leads : side.next pipe = some next) : ∃ root, next ∈ lists root := by
  obtain ⟨root, front, back, split⟩ := chained.exists_split_of_next leads
  exact ⟨root, by simp [split]⟩

/-- No pipe hangs on itself. -/
theorem back_ne (chained : side.Chained lists) (pipe : Pipe) :
    side.back pipe ≠ some (.pipe pipe) := by
  intro hangs
  obtain ⟨root, front, back, split, same⟩ := chained.exists_split_of_back hangs
  have nodup := chained.nodup root
  rw [split] at nodup
  have early : pipe ∈ front := Hook.mem_of_behind same.symm
  exact (List.nodup_append.mp nodup).2.2 pipe early pipe (by simp) rfl

/-- No pipe comes after itself. -/
theorem next_ne (chained : side.Chained lists) (pipe : Pipe) : side.next pipe ≠ some pipe := by
  intro leads
  obtain ⟨root, front, back, split⟩ := chained.exists_split_of_next leads
  have nodup := chained.nodup root
  rw [split] at nodup
  exact (List.nodup_cons.mp (List.nodup_append.mp nodup).2.1).1 (by simp)

/-- To clear the links of a pipe and to close its gap is to take it out of its chain. -/
theorem close_loosened [DecidableEq Root] {hook : Hook Root} (chained : side.Chained lists)
    (hangs : side.back pipe = some hook) :
    close { side with
        next := Function.update side.next pipe none
        back := Function.update side.back pipe none } hook (side.next pipe) =
      side.detach pipe := by
  apply close_eq_detach hangs
  · rintro rfl
    exact chained.back_ne pipe hangs
  · exact chained.next_ne pipe

/-- The first pipe of a chain is the one that hangs on the root. -/
theorem head_iff (chained : side.Chained lists) :
    side.head root = some pipe ↔ side.back pipe = some (.root root) := by
  constructor
  · intro first
    rw [chained.head] at first
    obtain ⟨rest, split⟩ := List.head?_eq_some_iff.mp first
    have split : lists root = [] ++ pipe :: rest := split
    simpa using (chained.links_of_split split).1
  · intro hangs
    obtain ⟨other, front, back, split, same⟩ := chained.exists_split_of_back hangs
    obtain ⟨rfl, rfl⟩ := Hook.root_of_behind same.symm
    rw [chained.head, split]
    rfl

end Side.Chained

/-- Following the links of a chain finds its pipes, if enough steps are allowed. -/
theorem Side.Strung.follow_eq {Root : Type} {side : Side Root} {hook : Hook Root}
    {pipes : List Pipe} {steps : Nat} (strung : side.Strung hook pipes none)
    (enough : pipes.length ≤ steps) : Graph.follow side.next steps pipes.head? = pipes := by
  induction pipes generalizing hook steps with
  | nil => cases steps <;> rfl
  | cons pipe rest ih =>
    obtain ⟨-, leads, later⟩ := strung
    cases steps with
    | zero => cases enough
    | succ steps =>
      rw [Option.or_none] at leads
      have follows := ih later (by simpa using enough)
      simp [Graph.follow, leads, follows]

namespace Graph

variable {graph : Graph} {pipe : Pipe} {source : Source} {sink : Sink} {links : Links}
  {outs : Source → List Pipe} {ins : Sink → List Pipe}

/-! ## Known pipes and ends -/

/-- The pipes that exist are those that have been added. -/
theorem exists_links_iff :
    (∃ links, graph.links? pipe = some links) ↔ pipe.index < graph.pipes.size := by
  constructor
  · rintro ⟨links, found⟩
    exact (Array.getElem?_eq_some_iff.mp found).1
  · intro known
    exact ⟨graph.pipes[pipe.index], Array.getElem?_eq_getElem known⟩

theorem index_lt_of_outBack {hook : Hook Source} (hangs : graph.outSide.back pipe = some hook) :
    pipe.index < graph.pipes.size := by
  rw [← exists_links_iff]
  cases found : graph.links? pipe with
  | none => simp [outSide, inlet, found] at hangs
  | some links => exact ⟨links, rfl⟩

theorem index_lt_of_inBack {hook : Hook Sink} (hangs : graph.inSide.back pipe = some hook) :
    pipe.index < graph.pipes.size := by
  rw [← exists_links_iff]
  cases found : graph.links? pipe with
  | none => simp [inSide, outlet, found] at hangs
  | some links => exact ⟨links, rfl⟩

/-- Different pipes that all exist are no more than there are. -/
theorem length_le_of_nodup {pipes : List Pipe} {size : Nat} (nodup : pipes.Nodup)
    (known : ∀ pipe ∈ pipes, pipe.index < size) : pipes.length ≤ size := by
  have indices : (pipes.map Pipe.index).Nodup := by
    refine nodup.map ?_
    rintro ⟨one⟩ ⟨other⟩ same
    exact congrArg Pipe.mk same
  have within : pipes.map Pipe.index ⊆ List.range size := by
    intro index member
    obtain ⟨pipe, here, rfl⟩ := List.mem_map.mp member
    exact List.mem_range.mpr (known pipe here)
  simpa using (List.subperm_of_subset indices within).length_le

/-! ## Wired graphs -/

/-- The links of a graph spell these lists of pipes. -/
structure Wired (graph : Graph) (outs : Source → List Pipe) (ins : Sink → List Pipe) : Prop where
  outward : graph.outSide.Chained outs
  inward : graph.inSide.Chained ins

namespace Wired

/-- The pipes of a source exist. -/
theorem index_lt_of_mem_outs (wired : graph.Wired outs ins) (member : pipe ∈ outs source) :
    pipe.index < graph.pipes.size := by
  have hangs := (wired.outward.strung source).back_isSome member
  obtain ⟨hook, hangs⟩ := Option.ne_none_iff_exists'.mp hangs
  exact index_lt_of_outBack hangs

theorem index_lt_of_mem_ins (wired : graph.Wired outs ins) (member : pipe ∈ ins sink) :
    pipe.index < graph.pipes.size := by
  have hangs := (wired.inward.strung sink).back_isSome member
  obtain ⟨hook, hangs⟩ := Option.ne_none_iff_exists'.mp hangs
  exact index_lt_of_inBack hangs

/-- No list is longer than there are pipes. -/
theorem length_outs_le (wired : graph.Wired outs ins) (source : Source) :
    (outs source).length ≤ graph.pipes.size :=
  length_le_of_nodup (wired.outward.nodup source) fun _ => wired.index_lt_of_mem_outs

theorem length_ins_le (wired : graph.Wired outs ins) (sink : Sink) :
    (ins sink).length ≤ graph.pipes.size :=
  length_le_of_nodup (wired.inward.nodup sink) fun _ => wired.index_lt_of_mem_ins

/-- Walking through the chains of the sources finds their lists. -/
theorem outChain_eq (wired : graph.Wired outs ins) : graph.outChain = outs := by
  ext1 source
  have head : graph.outHead source = (outs source).head? := wired.outward.head source
  rw [outChain, head]
  exact (wired.outward.strung source).follow_eq (wired.length_outs_le source)

theorem inChain_eq (wired : graph.Wired outs ins) : graph.inChain = ins := by
  ext1 sink
  have head : graph.inHead sink = (ins sink).head? := wired.inward.head sink
  rw [inChain, head]
  exact (wired.inward.strung sink).follow_eq (wired.length_ins_le sink)

end Wired

end Graph

end MidiTransport.Patchbay
