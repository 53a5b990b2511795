import MidiTransport.Proofs.Patchbay.Operations

/-!
# Failed calls

A call that fails has changed nothing, because all its conditions are looked at before the
first link changes, and those that are looked at again still hold (`connect_eq`). Connecting in
both directions is two connections one after the other, and the conditions of the second are
still met behind the first (`IsWired.connect_connect`), with one exception: nobody asks whether
the two pipes differ. With one pipe for both directions the call always fails, and it leaves
the first direction connected (`failures_of_run`).
-/

namespace MidiTransport.Patchbay

/-- Is one pipe to serve both directions? -/
def Operation.repeatsPipe : Operation → Bool
  | .connectBoth _ _ forward backward _ _ => forward = backward
  | _ => false

namespace Graph

variable {graph next : Graph} {pipe forward backward : Pipe} {source sourceA sourceB : Source}
  {sink sinkA sinkB : Sink} {outs : Source → List Pipe} {ins : Sink → List Pipe}

/-- How a call goes. A call that answers with no mistake always goes well. -/
def outcome (graph : Graph) : Operation → Except WiringError Unit
  | .connectInlet source pipe => (graph.connectInlet source pipe).2
  | .connectOutlet pipe sink => (graph.connectOutlet pipe sink).2
  | .connect source pipe sink => (graph.connect source pipe sink).2
  | .connectBoth sourceA sinkA forward backward sourceB sinkB =>
    (graph.connectBoth sourceA sinkA forward backward sourceB sinkB).2
  | .moveSource source target => (graph.moveSource source target).2
  | .swapSources one other => (graph.swapSources one other).2
  | .moveSink sink target => (graph.moveSink sink target).2
  | .swapSinks one other => (graph.swapSinks one other).2
  | _ => .ok ()

/-! ## One connection behind another -/

/-- A pipe at the end of one list is in no way of another pipe. -/
theorem not_mem_update_append {Root : Type} [DecidableEq Root] {lists : Root → List Pipe}
    (absent : ∀ root, backward ∉ lists root) (apart : backward ≠ forward) (root one : Root) :
    backward ∉ Function.update lists root (lists root ++ [forward]) one := by
  by_cases same : one = root
  · subst same
    simp [absent, apart]
  · simpa [same] using absent one

/-- A free pipe is still free when another one has been connected. -/
theorem Wired.requireFree_connect (wired : graph.Wired outs ins)
    (done : (graph.connect source forward sink).2 = .ok ())
    (free : graph.requireFree backward = .ok ()) (apart : backward ≠ forward) :
    (graph.connect source forward sink).1.requireFree backward = .ok () := by
  obtain ⟨known, freeInlet, freeOutlet⟩ := requireFree_eq_ok_iff.mp free
  have after := wired.connect done
  rw [requireFree_eq_ok_iff, size_of_frame (frame_connect graph source forward sink)]
  refine ⟨known, (after.outward.loose backward ?_).1, (after.inward.loose backward ?_).1⟩
  · exact not_mem_update_append (wired.outward.not_mem_of_back freeInlet) apart source
  · exact not_mem_update_append (wired.inward.not_mem_of_back freeOutlet) apart sink

/-- Two connections with different pipes are not in each other's way. -/
theorem IsWired.connect_connect (wired : graph.IsWired)
    (first : (graph.connect sourceA forward sinkB).2 = .ok ())
    (second : (graph.connect sourceB backward sinkA).2 = .ok ()) (apart : backward ≠ forward) :
    ((graph.connect sourceA forward sinkB).1.connect sourceB backward sinkA).2 = .ok () := by
  obtain ⟨outs, ins, spelled⟩ := wired
  obtain ⟨knownSource, knownSink, free⟩ := connect_eq_ok_iff_free.mp second
  have same := frame_connect graph sourceA forward sinkB
  rw [connect_eq_ok_iff_free, knowsSource_of_frame same, knowsSink_of_frame same]
  exact ⟨knownSource, knownSink, spelled.requireFree_connect first free apart⟩

/-- A pipe that has been connected has something at its inlet. -/
theorem Wired.requireFreeInlet_connect (wired : graph.Wired outs ins)
    (done : (graph.connect source pipe sink).2 = .ok ()) :
    (graph.connect source pipe sink).1.requireFreeInlet pipe = .error (.inletTaken pipe) := by
  have after := wired.connect done
  have bound := (after.outward.strung source).back_isSome
    (show pipe ∈ Function.update outs source (outs source ++ [pipe]) source by simp)
  unfold requireFreeInlet
  cases found : (graph.connect source pipe sink).1.links? pipe with
  | none => simp [outSide, inlet, found] at bound
  | some links =>
    cases hangs : links.inlet with
    | none => simp [outSide, inlet, found, hangs] at bound
    | some place => simp [hangs]

/-! ## Both directions -/

/-- Without one pipe for both directions, a failed call has connected nothing. -/
theorem IsWired.connectBoth_of_failed (wired : graph.IsWired) (apart : forward ≠ backward)
    (failed : (graph.connectBoth sourceA sinkA forward backward sourceB sinkB).2 ≠ .ok ()) :
    (graph.connectBoth sourceA sinkA forward backward sourceB sinkB).1 = graph := by
  rcases graph.connectBoth_cases sourceA sinkA forward backward sourceB sinkB with
    ⟨mistake, same, -⟩ | ⟨first, second, both⟩
  · rw [same]
  · rw [both] at failed
    exact absurd (wired.connect_connect first second apart.symm) failed

/-- One pipe for both directions is connected in the first direction only. -/
theorem IsWired.connectBoth_same (wired : graph.IsWired)
    (first : (graph.connect sourceA pipe sinkB).2 = .ok ())
    (second : (graph.connect sourceB pipe sinkA).2 = .ok ()) :
    graph.connectBoth sourceA sinkA pipe pipe sourceB sinkB =
      ((graph.connect sourceA pipe sinkB).1, .error (.inletTaken pipe)) := by
  obtain ⟨outs, ins, spelled⟩ := wired
  obtain ⟨knownSource, knownSink, -⟩ := connect_eq_ok_iff_free.mp second
  have same := frame_connect graph sourceA pipe sinkB
  have taken := spelled.requireFreeInlet_connect first
  rcases graph.connectBoth_cases sourceA sinkA pipe pipe sourceB sinkB with
    ⟨mistake, -, refused⟩ | ⟨-, -, both⟩
  · exact absurd ⟨first, second⟩ refused
  · rw [both]
    generalize (graph.connect sourceA pipe sinkB).1 = next at same taken
    have unmet : (do next.requireSource sourceB; next.requireSink sinkA; next.requireFree pipe) =
        .error (.inletTaken pipe) := by
      simp [requireSource, requireSink, requireFree, knowsSource_of_frame same,
        knowsSink_of_frame same, knownSource, knownSink, taken, bind, Except.bind]
    rw [connect_eq, unmet]
    rfl

/-! ## Runs -/

/-- In every run a failed call leaves everything as it was, unless it is to connect two
directions with one pipe. That always fails. If the pipe could serve either direction, it has
then been connected in the first one, and otherwise everything is as it was. -/
theorem failures_of_run (operations : List Operation) :
    (∀ operation mistake, (run operations).outcome operation = .error mistake →
      operation.repeatsPipe = false → (run operations).apply operation = run operations) ∧
    ∀ sourceA sinkA pipe sourceB sinkB,
      let both := Operation.connectBoth sourceA sinkA pipe pipe sourceB sinkB
      if ((run operations).connect sourceA pipe sinkB).2 = .ok () ∧
          ((run operations).connect sourceB pipe sinkA).2 = .ok () then
        (run operations).outcome both = .error (.inletTaken pipe) ∧
          (run operations).apply both = ((run operations).connect sourceA pipe sinkB).1
      else (∃ mistake, (run operations).outcome both = .error mistake) ∧
        (run operations).apply both = run operations := by
  have wired := run_wired operations
  generalize run operations = graph at wired
  constructor
  · intro operation mistake failed once
    have unmet (done : graph.outcome operation = .ok ()) : False := by simp [failed] at done
    cases operation with
    | connectInlet source pipe => exact proceed_of_failed unmet
    | connectOutlet pipe sink => exact proceed_of_failed unmet
    | connect source pipe sink => exact connect_of_failed unmet
    | connectBoth sourceA sinkA forward backward sourceB sinkB =>
      exact wired.connectBoth_of_failed (of_decide_eq_false once) unmet
    | moveSource source target => exact moveSource_of_failed unmet
    | swapSources one other => exact proceed_of_failed unmet
    | moveSink sink target => exact moveSink_of_failed unmet
    | swapSinks one other => exact proceed_of_failed unmet
    | _ => cases failed
  · intro sourceA sinkA pipe sourceB sinkB both
    split
    · rename_i either
      have connected := wired.connectBoth_same either.1 either.2
      exact ⟨congrArg Prod.snd connected, (Prod.ext_iff.mp connected).1⟩
    · rename_i unmet
      rcases graph.connectBoth_cases sourceA sinkA pipe pipe sourceB sinkB with
        ⟨mistake, refused, -⟩ | ⟨first, second, -⟩
      · exact ⟨⟨mistake, congrArg Prod.snd refused⟩, (Prod.ext_iff.mp refused).1⟩
      · exact absurd ⟨first, second⟩ unmet

/-- Two interfaces and one pipe, which carries from the first to the second. -/
def twoInterfaces : List Operation :=
  [.addSource, .addSource, .addSink, .addSink, .addPipe, .addPipe, .connect ⟨0⟩ ⟨0⟩ ⟨1⟩]

/-- A pipe that is taken, and one pipe for both directions. -/
theorem failures_of_run_takenPipe :
    (run twoInterfaces).outcome (.connectBoth ⟨0⟩ ⟨0⟩ ⟨1⟩ ⟨0⟩ ⟨1⟩ ⟨1⟩) =
        .error (.inletTaken ⟨0⟩) ∧
      (run twoInterfaces).apply (.connectBoth ⟨0⟩ ⟨0⟩ ⟨1⟩ ⟨0⟩ ⟨1⟩ ⟨1⟩) = run twoInterfaces := by
  have failed : (run twoInterfaces).outcome (.connectBoth ⟨0⟩ ⟨0⟩ ⟨1⟩ ⟨0⟩ ⟨1⟩ ⟨1⟩) =
      .error (.inletTaken ⟨0⟩) := by decide +kernel
  exact ⟨failed, (failures_of_run twoInterfaces).1 _ _ failed (by decide)⟩

/-- The failed call has given the first source a way to the second sink. -/
theorem connectBoth_failed_halfway :
    let call := Operation.connectBoth ⟨0⟩ ⟨0⟩ ⟨1⟩ ⟨1⟩ ⟨1⟩ ⟨1⟩
    (run twoInterfaces).outcome call = .error (.inletTaken ⟨1⟩) ∧
      (run twoInterfaces).sinksOf ⟨0⟩ = [⟨1⟩] ∧
      ((run twoInterfaces).apply call).sinksOf ⟨0⟩ = [⟨1⟩, ⟨1⟩] := by
  decide +kernel

end Graph

end MidiTransport.Patchbay
