import Mathlib.Data.Prod.Basic
import MidiTransport.Proofs.Patchbay.Reach

/-!
# Locks keep others away

A graph is `Guarded` if no cable of a sink has two locks and every owner of a lock reaches its
sink. `Effect` says what a call can do to locks and to the reach of sources, and every call has
such an effect (`IsWired.effect_apply`). From that follow the two facts about runs: all graphs
are guarded, and a lock lasts until a call ends it in one of the ways that `Operation.ends`
names. A delivery asks for the owner of a lock and for nothing else.
-/

namespace MidiTransport.Patchbay

/-- Does a call end a lock? Its owner may unlock the cable, a disconnection may cut off the
owner from the sink, and an exchange may give another name to one of them. -/
def Operation.ends (graph : Graph) (lock : Lock) (operation : Operation) : Bool :=
  match operation with
  | .unlock source cable => lock.owner = source ∧ lock.cable = cable
  | .disconnect pipe => lock.sink ∉ (graph.disconnect pipe).1.sinksOf lock.owner
  | .disconnectBoth forward backward =>
    lock.sink ∉ (graph.disconnectBoth forward backward).1.sinksOf lock.owner
  | .disconnectRoute source sink =>
    lock.sink ∉ (graph.disconnectRoute source sink).1.sinksOf lock.owner
  | .disconnectRouteBackwards sink source =>
    lock.sink ∉ (graph.disconnectRouteBackwards sink source).1.sinksOf lock.owner
  | .disconnectSource source => lock.sink ∉ (graph.disconnectSource source).sinksOf lock.owner
  | .disconnectSink sink => lock.sink ∉ (graph.disconnectSink sink).sinksOf lock.owner
  | .moveSource source target =>
    (graph.moveSource source target).2 = .ok () ∧ (lock.owner = source ∨ lock.owner = target)
  | .swapSources one other =>
    (graph.swapSources one other).2 = .ok () ∧ (lock.owner = one ∨ lock.owner = other)
  | .moveSink sink target =>
    (graph.moveSink sink target).2 = .ok () ∧ (lock.sink = sink ∨ lock.sink = target)
  | .swapSinks one other =>
    (graph.swapSinks one other).2 = .ok () ∧ (lock.sink = one ∨ lock.sink = other)
  | _ => false

/-- The cable of a sink that a lock is for. -/
def Lock.key (lock : Lock) : Sink × Cable := (lock.sink, lock.cable)

namespace Graph

variable {graph next : Graph} {source owner : Source} {sink : Sink} {cable : Cable} {lock : Lock}
  {operation : Operation} {outs : Source → List Pipe} {ins : Sink → List Pipe}

/-- None of these calls, one after the other, ends the lock. -/
def lasts (graph : Graph) (lock : Lock) : List Operation → Bool
  | [] => true
  | operation :: later => !operation.ends graph lock && (graph.apply operation).lasts lock later

/-- No cable of a sink has two locks, and every owner of a lock reaches its sink. -/
structure Guarded (graph : Graph) : Prop where
  single : (graph.locks.map Lock.key).Nodup
  reached : ∀ lock ∈ graph.locks, lock.sink ∈ graph.sinksOf lock.owner

theorem guarded_empty : Graph.empty.Guarded where
  single := .nil
  reached _ member := by cases member

/-! ## The owner of a cable of a sink -/

/-- A sink is free on a cable if no lock is for both. -/
theorem lockOwner_eq_none_iff :
    graph.lockOwner sink cable = none ↔ (sink, cable) ∉ graph.locks.map Lock.key := by
  simp only [lockOwner, Option.map_eq_none_iff, List.find?_eq_none, List.mem_map, Lock.key,
    Prod.mk.injEq, not_exists, not_and, Bool.and_eq_true, beq_iff_eq]

/-- With one lock for a cable of a sink, looking for its owner finds it. -/
theorem lockOwner_eq_some_iff (single : (graph.locks.map Lock.key).Nodup) :
    graph.lockOwner sink cable = some owner ↔ ⟨sink, cable, owner⟩ ∈ graph.locks := by
  constructor
  · intro owned
    obtain ⟨lock, found, rfl⟩ := Option.map_eq_some_iff.mp owned
    obtain ⟨rfl, rfl⟩ : lock.sink = sink ∧ lock.cable = cable := by
      simpa using List.find?_some found
    exact List.mem_of_find?_eq_some found
  · intro member
    cases found : graph.lockOwner sink cable with
    | none => exact absurd (List.mem_map_of_mem member) (lockOwner_eq_none_iff.mp found)
    | some other =>
      obtain ⟨lock, first, rfl⟩ := Option.map_eq_some_iff.mp found
      have same : lock.key = Lock.key ⟨sink, cable, owner⟩ := by
        simpa [Lock.key] using List.find?_some first
      rw [List.inj_on_of_nodup_map single (List.mem_of_find?_eq_some first) member same]

/-- A new lock is for a cable of a sink that has none. -/
theorem lockOwner_addLock (graph : Graph) (source : Source) (cable : Cable) (sink : Sink)
    (one : Sink) (other : Cable) :
    (graph.addLock source cable sink).lockOwner one other =
      if one = sink ∧ other = cable then some ((graph.lockOwner sink cable).getD source)
      else graph.lockOwner one other := by
  unfold addLock
  cases found : graph.lockOwner sink cable with
  | some owner =>
    dsimp only
    split
    · rename_i same
      rw [same.1, same.2, found]
      rfl
    · rfl
  | none =>
    simp only [lockOwner, List.find?_append]
    split
    · rename_i same
      obtain ⟨rfl, rfl⟩ := same
      rw [Option.map_eq_none_iff.mp found]
      simp
    · rename_i apart
      have new : ¬ (sink = one ∧ cable = other) := fun same => apart ⟨same.1.symm, same.2.symm⟩
      simp [new]

/-- Locking several sinks gives the free ones of them to the source, and leaves the others with
their owners. -/
theorem lockOwner_addLocks (graph : Graph) (source : Source) (cable : Cable) (sinks : List Sink)
    (one : Sink) (other : Cable) :
    (sinks.foldl (·.addLock source cable ·) graph).lockOwner one other =
      if one ∈ sinks ∧ other = cable then some ((graph.lockOwner one other).getD source)
      else graph.lockOwner one other := by
  induction sinks generalizing graph with
  | nil => simp
  | cons sink rest ih =>
    rw [List.foldl_cons, ih, lockOwner_addLock]
    by_cases same : other = cable
    · subst same
      by_cases here : one = sink
      · subst here
        by_cases again : one ∈ rest <;> simp [again]
      · simp [here]
    · simp [same]

/-- Nobody else owns a cable of a sink if there is no owner but this source. -/
theorem lockedByOther_eq_false_iff :
    graph.lockedByOther sink cable (some source) = false ↔
      ∀ owner, graph.lockOwner sink cable = some owner → owner = source := by
  unfold lockedByOther
  cases graph.lockOwner sink cable <;> simp

/-! ## Locking -/

/-- A failed attempt to lock changes nothing. -/
theorem lock_of_false (failed : (graph.lock source cable).2 = false) :
    (graph.lock source cable).1 = graph := by
  unfold Graph.lock at failed ⊢
  dsimp only at failed ⊢
  split
  · rfl
  · rename_i free
    rw [if_neg free] at failed
    cases failed

/-- Behind a successful attempt to lock, the source owns the cable of every sink that it
reaches. -/
theorem lockOwner_lock (done : (graph.lock source cable).2 = true)
    (reached : sink ∈ graph.sinksOf source) :
    (graph.lock source cable).1.lockOwner sink cable = some source := by
  unfold Graph.lock at done ⊢
  dsimp only at done ⊢
  split
  · rename_i taken
    rw [if_pos taken] at done
    cases done
  · rename_i free
    rw [lockOwner_addLocks, if_pos ⟨reached, rfl⟩]
    have mine : graph.lockedByOther sink cable (some source) = false := by
      simpa using fun taken => free (List.any_eq_true.mpr ⟨sink, reached, taken⟩)
    cases owned : graph.lockOwner sink cable with
    | none => rfl
    | some owner =>
      rw [lockedByOther_eq_false_iff.mp mine owner owned]
      rfl

/-- Locks are added one by one, each for a cable of a sink that has none. -/
theorem locks_addLocks (graph : Graph) (source : Source) (cable : Cable) (sinks : List Sink) :
    ∃ added, (sinks.foldl (·.addLock source cable ·) graph).locks = graph.locks ++ added ∧
      (∀ lock ∈ added, lock.owner = source ∧ lock.sink ∈ sinks) ∧
      ((graph.locks.map Lock.key).Nodup → ((graph.locks ++ added).map Lock.key).Nodup) := by
  induction sinks generalizing graph with
  | nil => exact ⟨[], by simp⟩
  | cons sink rest ih =>
    obtain ⟨added, locks, mine, single⟩ := ih (graph.addLock source cable sink)
    rw [List.foldl_cons, locks]
    cases found : graph.lockOwner sink cable with
    | some owner =>
      have same : graph.addLock source cable sink = graph := by simp [addLock, found]
      rw [same] at single ⊢
      refine ⟨added, rfl, fun lock member => ?_, single⟩
      exact ⟨(mine lock member).1, List.mem_cons_of_mem _ (mine lock member).2⟩
    | none =>
      have more : (graph.addLock source cable sink).locks =
          graph.locks ++ [⟨sink, cable, source⟩] := by simp [addLock, found]
      rw [more, List.append_assoc] at single ⊢
      refine ⟨_, rfl, ?_, fun before => single ?_⟩
      · intro lock member
        rcases List.mem_append.mp member with here | there
        · obtain rfl := List.mem_singleton.mp here
          exact ⟨rfl, List.mem_cons_self⟩
        · exact ⟨(mine lock there).1, List.mem_cons_of_mem _ (mine lock there).2⟩
      · rw [List.map_append, List.nodup_append]
        refine ⟨before, by simp, ?_⟩
        rintro key old other new rfl
        obtain rfl : key = (sink, cable) := by simpa [Lock.key] using new
        exact lockOwner_eq_none_iff.mp found old

/-- Locking adds locks of sinks that the source reaches, and at most one for each sink and cable. -/
theorem locks_lock (graph : Graph) (source : Source) (cable : Cable) :
    ∃ added, (graph.lock source cable).1.locks = graph.locks ++ added ∧
      (∀ lock ∈ added, lock.owner = source ∧ lock.sink ∈ graph.sinksOf source) ∧
      ((graph.locks.map Lock.key).Nodup → ((graph.locks ++ added).map Lock.key).Nodup) := by
  unfold Graph.lock
  dsimp only
  split
  · exact ⟨[], by simp⟩
  · exact locks_addLocks graph source cable _

/-! ## Effects of calls -/

/-- An exchange gives different names to different ends. -/
theorem exchange_injective {End : Type} [DecidableEq End] (one other : End) :
    Function.Injective (exchange one other) :=
  Function.LeftInverse.injective (exchange_exchange one other)

/-- An end that is not exchanged keeps its name. -/
theorem exchange_of_ne {End : Type} [DecidableEq End] {one other root : End}
    (apart : ¬ (root = one ∨ root = other)) : exchange one other root = root := by
  unfold exchange
  grind

/-- What a call can do to locks and to the reach of sources. -/
inductive Effect (graph : Graph) (operation : Operation) : Graph → Prop where
  /-- All locks stay, under names that change for no lock but those that the call ends. -/
  | rename {nameSource : Source → Source} {nameSink : Sink → Sink} {next : Graph}
      (renames : Renames nameSource nameSink graph next)
      (injective : Function.Injective nameSink)
      (fixed : ∀ lock, operation.ends graph lock = false → lock.rename nameSource nameSink = lock) :
      Effect graph operation next
  /-- A lock goes if its owner no longer reaches its sink. -/
  | cut {next : Graph} (cuts : graph.Cuts next)
      (ended : ∀ lock, operation.ends graph lock = false →
        lock.sink ∈ next.sinksOf lock.owner) :
      Effect graph operation next
  | lock (source : Source) (cable : Cable) : Effect graph operation (graph.lock source cable).1
  /-- The locks of one source for one cable go. -/
  | unlock {source : Source} {cable : Cable}
      (ended : ∀ lock, operation.ends graph lock = false →
        ¬ (lock.owner = source ∧ lock.cable = cable)) :
      Effect graph operation (graph.unlock source cable)

namespace Effect

/-- Ways that are added end no lock. -/
theorem extend (extends_ : graph.Extends next) : Effect graph operation next :=
  .rename extends_ Function.injective_id fun _ _ => rfl

/-- Locks stay apart, and their owners within reach. -/
theorem guarded (effect : Effect graph operation next) (guarded : graph.Guarded) :
    next.Guarded := by
  cases effect with
  | @rename nameSource nameSink next renames injective fixed =>
    constructor
    · have keys : next.locks.map Lock.key =
          (graph.locks.map Lock.key).map (Prod.map nameSink id) := by
        simp [renames.locks, Lock.key, Lock.rename]
      rw [keys]
      exact guarded.single.map (injective.prodMap Function.injective_id)
    · rw [renames.locks, List.forall_mem_map]
      intro lock member
      exact renames.reach lock.owner lock.sink (guarded.reached lock member)
  | cut cuts ended =>
    constructor
    · exact (cuts.remaining.map Lock.key).nodup guarded.single
    · exact cuts.reached guarded.reached
  | lock source cable =>
    obtain ⟨added, locks, mine, single⟩ := graph.locks_lock source cable
    constructor
    · rw [locks]
      exact single guarded.single
    · rw [locks, (graph.sameLinks_lock source cable).sinksOf]
      intro lock member
      rcases List.mem_append.mp member with old | new
      · exact guarded.reached lock old
      · rw [(mine lock new).1]
        exact (mine lock new).2
  | @unlock source cable ended =>
    have same := (graph.sameLinks_unlock source cable).sinksOf
    constructor
    · exact (List.filter_sublist.map Lock.key).nodup guarded.single
    · rw [same]
      intro lock member
      exact guarded.reached lock (List.mem_of_mem_filter member)

/-- A lock stays unless the call ends it. -/
theorem keeps (effect : Effect graph operation next) (held : lock ∈ graph.locks)
    (stays : operation.ends graph lock = false) : lock ∈ next.locks := by
  cases effect with
  | rename renames injective fixed =>
    rw [renames.locks, ← fixed lock stays]
    exact List.mem_map_of_mem held
  | cut cuts ended => exact cuts.kept lock held (ended lock stays)
  | lock source cable =>
    obtain ⟨added, locks, -⟩ := graph.locks_lock source cable
    rw [locks]
    exact List.mem_append_left added held
  | unlock ended =>
    apply List.mem_filter.mpr
    simpa using ⟨held, not_and_or.mp (ended lock stays)⟩

end Effect

namespace Wired

/-- An attempt to exchange two sources ends no lock of others. -/
theorem effect_proceedSources {condition : Except WiringError Unit} {one other : Source}
    (wired : graph.Wired outs ins)
    (after : (graph.proceed condition (graph.exchangeSources one other)).2 = .ok () →
      (graph.proceed condition (graph.exchangeSources one other)).1.Wired
        (fun source => outs (exchange one other source)) ins)
    (spares : ∀ lock, operation.ends graph lock = false →
      (graph.proceed condition (graph.exchangeSources one other)).2 = .ok () →
      ¬ (lock.owner = one ∨ lock.owner = other)) :
    Effect graph operation (graph.proceed condition (graph.exchangeSources one other)).1 := by
  cases condition with
  | error mistake => exact .extend (.refl graph)
  | ok done =>
    refine .rename (wired.relabels_exchangeSources (after rfl)).renames Function.injective_id ?_
    intro lock stays
    rw [Lock.rename, exchange_of_ne (spares lock stays rfl)]
    rfl

/-- An attempt to exchange two sinks ends no lock of others. -/
theorem effect_proceedSinks {condition : Except WiringError Unit} {one other : Sink}
    (wired : graph.Wired outs ins)
    (after : (graph.proceed condition (graph.exchangeSinks one other)).2 = .ok () →
      (graph.proceed condition (graph.exchangeSinks one other)).1.Wired outs
        fun sink => ins (exchange one other sink))
    (spares : ∀ lock, operation.ends graph lock = false →
      (graph.proceed condition (graph.exchangeSinks one other)).2 = .ok () →
      ¬ (lock.sink = one ∨ lock.sink = other)) :
    Effect graph operation (graph.proceed condition (graph.exchangeSinks one other)).1 := by
  cases condition with
  | error mistake => exact .extend (.refl graph)
  | ok done =>
    refine .rename (wired.relabels_exchangeSinks (after rfl)).renames
      (exchange_injective one other) ?_
    intro lock stays
    rw [Lock.rename, exchange_of_ne (spares lock stays rfl)]
    rfl

/-- Disconnecting two pipes cuts no way that does not lead through them. -/
theorem cuts_disconnectBoth (wired : graph.Wired outs ins) (forward backward : Pipe) :
    graph.Cuts (graph.disconnectBoth forward backward).1 :=
  (wired.cuts_disconnect forward).trans ((wired.disconnect forward).cuts_disconnect backward)

end Wired

/-- A disconnecting call ends the locks of sinks that their owners no longer reach. -/
theorem Effect.disconnect (cuts : graph.Cuts next)
    (ended : ∀ lock, operation.ends graph lock = decide (lock.sink ∉ next.sinksOf lock.owner)) :
    Effect graph operation next := by
  apply Effect.cut cuts
  intro lock stays
  simpa [ended] using stays

/-- Every call has one of the effects. -/
theorem IsWired.effect_apply (wired : graph.IsWired) (operation : Operation) :
    Effect graph operation (graph.apply operation) := by
  have ⟨outs, ins, spelled⟩ := wired
  cases operation with
  | addSource => exact .extend spelled.extends_addSource
  | addSink => exact .extend spelled.extends_addSink
  | addPipe => exact .extend spelled.extends_addPipe
  | connectInlet source pipe => exact .extend (spelled.extends_connectInlet source pipe)
  | connectOutlet pipe sink => exact .extend (spelled.extends_connectOutlet pipe sink)
  | connect source pipe sink => exact .extend (spelled.extends_connect source pipe sink)
  | connectBoth sourceA sinkA forward backward sourceB sinkB =>
    exact .extend (wired.extends_connectBoth sourceA sinkA forward backward sourceB sinkB)
  | disconnect pipe => exact .disconnect (spelled.cuts_disconnect pipe) fun _ => rfl
  | disconnectBoth forward backward =>
    exact .disconnect (spelled.cuts_disconnectBoth forward backward) fun _ => rfl
  | disconnectRoute source sink => exact .disconnect (spelled.cuts_disconnect? _) fun _ => rfl
  | disconnectRouteBackwards sink source =>
    exact .disconnect (spelled.cuts_disconnect? _) fun _ => rfl
  | disconnectSource source =>
    have cuts := spelled.cuts_disconnectAll (outs source)
    rw [← spelled.disconnectSource_eq] at cuts
    exact .disconnect cuts fun _ => rfl
  | disconnectSink sink =>
    have cuts := spelled.cuts_disconnectAll (ins sink)
    rw [← spelled.disconnectSink_eq] at cuts
    exact .disconnect cuts fun _ => rfl
  | moveSource source target =>
    rw [Graph.apply, moveSource_eq]
    refine spelled.effect_proceedSources (fun done => ?_) fun lock stays done => ?_
    · rw [← moveSource_eq] at done ⊢
      exact spelled.moveSource done
    · rw [← moveSource_eq] at done
      exact not_and.mp (of_decide_eq_false stays) done
  | swapSources one other =>
    refine spelled.effect_proceedSources spelled.swapSources fun lock stays done => ?_
    exact not_and.mp (of_decide_eq_false stays) done
  | moveSink sink target =>
    rw [Graph.apply, moveSink_eq]
    refine spelled.effect_proceedSinks (fun done => ?_) fun lock stays done => ?_
    · rw [← moveSink_eq] at done ⊢
      exact spelled.moveSink done
    · rw [← moveSink_eq] at done
      exact not_and.mp (of_decide_eq_false stays) done
  | swapSinks one other =>
    refine spelled.effect_proceedSinks spelled.swapSinks fun lock stays done => ?_
    exact not_and.mp (of_decide_eq_false stays) done
  | lock source cable => exact .lock source cable
  | unlock source cable => exact .unlock fun _ stays => of_decide_eq_false stays
  | dispatch source message =>
    have same := (graph.sameLinks_dispatch source message).sinksOf
    exact .extend ⟨fun _ _ reached => same ▸ reached, by simp [Graph.apply, Graph.dispatch]⟩

/-! ## Runs -/

/-- All calls keep the locks apart and within reach. -/
theorem Guarded.applyAll (guarded : graph.Guarded) (wired : graph.IsWired)
    (operations : List Operation) : (graph.applyAll operations).Guarded := by
  induction operations generalizing graph with
  | nil => exact guarded
  | cons operation later ih =>
    exact ih ((wired.effect_apply operation).guarded guarded) (wired.apply operation)

/-- A lock stays until a call ends it. -/
theorem mem_locks_applyAll (wired : graph.IsWired) (held : lock ∈ graph.locks)
    (operations : List Operation) (lasts : graph.lasts lock operations = true) :
    lock ∈ (graph.applyAll operations).locks := by
  induction operations generalizing graph with
  | nil => exact held
  | cons operation later ih =>
    obtain ⟨stays, rest⟩ : operation.ends graph lock = false ∧
        (graph.apply operation).lasts lock later = true := by
      simpa [Graph.lasts] using lasts
    exact ih (wired.apply operation) ((wired.effect_apply operation).keeps held stays) rest

/-- Behind every run the locks are apart and within reach. -/
theorem guarded_run (operations : List Operation) : (run operations).Guarded :=
  guarded_empty.applyAll ⟨_, _, empty_wired⟩ operations

theorem run_append (front back : List Operation) :
    run (front ++ back) = (run front).applyAll back :=
  List.foldl_append

/-! ## Deliveries -/

/-- A message goes to the sinks that its source reaches, except for those that do not admit it. -/
theorem dispatch_snd (graph : Graph) (source : Source) (message : Message) :
    (graph.dispatch source message).2 =
      (graph.sinksOf source).reverse.filter (graph.admits source message) := by
  simp [Graph.dispatch, sinksOf, List.filterMap_reverse]

/-- A delivery counts the sinks that do not admit the message. -/
theorem dropped_dispatch (graph : Graph) (source : Source) (message : Message) :
    (graph.dispatch source message).1.dropped =
      graph.dropped +
        (graph.sinksOf source).countP fun sink => !graph.admits source message sink := by
  simp [Graph.dispatch, Graph.sinksOf, List.filterMap_reverse, List.partition_eq_filter_filter,
    List.countP_eq_length_filter, Function.comp_def]

/-- A sink lets real-time messages in, and other messages if no other source has locked it. -/
theorem admits_iff {message : Message} :
    graph.admits source message sink = true ↔
      message.isRealTime = true ∨
        ∀ owner, graph.lockOwner sink message.cable = some owner → owner = source := by
  rw [admits, Bool.or_eq_true, Bool.not_eq_true', lockedByOther_eq_false_iff]

/-- In every run, the owner of a lock reaches its sink. A source that locks a cable owns it on
every sink that it reaches, until a call ends the lock. Meanwhile no other source gets a message
through on this cable, except for real-time messages. These, and messages for cables that nobody
else has locked, go to a sink once for every way there. A failed attempt to lock changes
nothing. -/
theorem exclusive_of_run (operations : List Operation) :
    (∀ lock : Lock,
      (lock ∈ (run operations).locks ↔
        (run operations).lockOwner lock.sink lock.cable = some lock.owner) ∧
      (lock ∈ (run operations).locks → lock.sink ∈ (run operations).sinksOf lock.owner)) ∧
    (∀ source cable, ((run operations).lock source cable).2 = true →
      ∀ sink ∈ (run operations).sinksOf source, ∀ later,
        ((run operations).lock source cable).1.lasts ⟨sink, cable, source⟩ later = true →
        (run (operations ++ .lock source cable :: later)).lockOwner sink cable = some source) ∧
    (∀ sink cable owner, (run operations).lockOwner sink cable = some owner →
      ∀ source message, source ≠ owner → message.cable = cable → message.isRealTime = false →
        sink ∉ ((run operations).dispatch source message).2) ∧
    (∀ source message sink,
      (message.isRealTime = true ∨
        ∀ owner, (run operations).lockOwner sink message.cable = some owner → owner = source) →
      ((run operations).dispatch source message).2.count sink =
        ((run operations).sinksOf source).count sink) ∧
    ∀ source cable, ((run operations).lock source cable).2 = false →
      ((run operations).lock source cable).1 = run operations := by
  have guarded := guarded_run operations
  refine ⟨?_, ?_, ?_, ?_, fun _ _ => lock_of_false⟩
  · intro lock
    exact ⟨(lockOwner_eq_some_iff guarded.single).symm, guarded.reached lock⟩
  · intro source cable done sink reached later lasts
    have before := (Effect.lock source cable : Effect _ (.lock source cable) _).guarded guarded
    have owned := (lockOwner_eq_some_iff before.single).mp (lockOwner_lock done reached)
    have wired := (run_wired operations).apply (.lock source cable)
    have after := guarded_run (operations ++ .lock source cable :: later)
    rw [lockOwner_eq_some_iff after.single, run_append]
    exact mem_locks_applyAll wired owned later lasts
  · rintro sink cable owner owned source message other rfl loud delivered
    rw [dispatch_snd, List.mem_filter, admits_iff] at delivered
    rcases delivered.2 with quiet | mine
    · simp [quiet] at loud
    · exact other (mine owner owned).symm
  · intro source message sink admitted
    rw [dispatch_snd, List.count_filter (admits_iff.mpr admitted), List.count_reverse]

/-- Two sources share a sink, and the first of them has two ways there. -/
def sharedSinkCalls : List Operation :=
  [.addSource, .addSource, .addSink, .addPipe, .addPipe, .addPipe, .connect ⟨0⟩ ⟨0⟩ ⟨0⟩,
    .connect ⟨1⟩ ⟨1⟩ ⟨0⟩, .connect ⟨0⟩ ⟨2⟩ ⟨0⟩]

/-- Calls of the second source, and the loss of one of the two ways. -/
def contestingCalls : List Operation :=
  [.lock ⟨1⟩ .first, .disconnect ⟨0⟩, .unlock ⟨1⟩ .first, .swapSources ⟨1⟩ ⟨1⟩,
    .dispatch ⟨1⟩ (.channel ⟨0x90, 0x40, 0x41, .first⟩)]

/-- A lock on a sink that two sources share, which lasts through the calls of the other one. -/
theorem exclusive_of_run_sharedSink :
    ((run sharedSinkCalls).lock ⟨0⟩ .first).2 = true ∧
      ((run sharedSinkCalls).lock ⟨0⟩ .first).1.lasts ⟨⟨0⟩, .first, ⟨0⟩⟩ contestingCalls = true ∧
      (run (sharedSinkCalls ++ .lock ⟨0⟩ .first :: contestingCalls)).lockOwner ⟨0⟩ .first =
        some ⟨0⟩ ∧
      ⟨0⟩ ∉ ((run (sharedSinkCalls ++ .lock ⟨0⟩ .first :: contestingCalls)).dispatch ⟨1⟩
        (.channel ⟨0x90, 0x40, 0x41, .first⟩)).2 ∧
      ((run (sharedSinkCalls ++ .lock ⟨0⟩ .first :: contestingCalls)).dispatch ⟨1⟩
        (.realTime ⟨0xF8, .first⟩)).2.count ⟨0⟩ = 1 ∧
      ((run (sharedSinkCalls ++ .lock ⟨0⟩ .first :: contestingCalls)).lock ⟨1⟩ .first).1 =
        run (sharedSinkCalls ++ .lock ⟨0⟩ .first :: contestingCalls) := by
  have done : ((run sharedSinkCalls).lock ⟨0⟩ .first).2 = true := by decide +kernel
  have lasts : ((run sharedSinkCalls).lock ⟨0⟩ .first).1.lasts ⟨⟨0⟩, .first, ⟨0⟩⟩
      contestingCalls = true := by decide +kernel
  have owned := (exclusive_of_run sharedSinkCalls).2.1 ⟨0⟩ .first done ⟨0⟩ (by decide +kernel)
    contestingCalls lasts
  obtain ⟨-, -, blocks, delivers, fails⟩ :=
    exclusive_of_run (sharedSinkCalls ++ .lock ⟨0⟩ .first :: contestingCalls)
  refine ⟨done, lasts, owned, ?_, ?_, fails ⟨1⟩ .first (by decide +kernel)⟩
  · exact blocks ⟨0⟩ .first ⟨0⟩ owned ⟨1⟩ _ (by decide) rfl rfl
  · rw [delivers ⟨1⟩ (.realTime ⟨0xF8, .first⟩) ⟨0⟩ (.inl rfl)]
    decide +kernel

end Graph

end MidiTransport.Patchbay
