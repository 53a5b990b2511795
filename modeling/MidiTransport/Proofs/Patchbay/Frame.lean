import MidiTransport.Patchbay.Wiring

/-!
# What stays while links change

Most functions that make up the wiring change links and nothing else. The `Frame` of a graph is
everything but its links, so one lemma for each of these functions says that it neither adds
or removes anything, nor touches a lock, nor counts a message.
-/

namespace MidiTransport.Patchbay

/-- Everything of a graph but its links. -/
structure Frame where
  /-- The number of sources. -/
  sources : Nat
  /-- The number of sinks. -/
  sinks : Nat
  /-- The number of pipes. -/
  pipes : Nat
  locks : List Lock
  /-- The number of messages that a lock has held off. -/
  dropped : Nat

namespace Graph

variable {graph next : Graph}

def frame (graph : Graph) : Frame :=
  ⟨graph.sources.size, graph.sinks.size, graph.pipes.size, graph.locks, graph.dropped⟩

/-! ## Parts of the frame -/

theorem size_of_frame (same : next.frame = graph.frame) : next.pipes.size = graph.pipes.size :=
  congrArg Frame.pipes same

theorem locks_of_frame (same : next.frame = graph.frame) : next.locks = graph.locks :=
  congrArg Frame.locks same

theorem knowsSource_of_frame (same : next.frame = graph.frame) (source : Source) :
    next.knowsSource source = graph.knowsSource source := by
  have sizes : next.sources.size = graph.sources.size := congrArg Frame.sources same
  rw [knowsSource, knowsSource, sizes]

theorem knowsSink_of_frame (same : next.frame = graph.frame) (sink : Sink) :
    next.knowsSink sink = graph.knowsSink sink := by
  have sizes : next.sinks.size = graph.sinks.size := congrArg Frame.sinks same
  rw [knowsSink, knowsSink, sizes]

/-! ## Functions that change links -/

@[simp] theorem frame_modifyLinks (graph : Graph) (pipe : Pipe) (change : Links → Links) :
    (graph.modifyLinks pipe change).frame = graph.frame := by
  simp [modifyLinks, frame]

@[simp] theorem frame_setOutHead (graph : Graph) (source : Source) (head : Option Pipe) :
    (graph.setOutHead source head).frame = graph.frame := by
  simp [setOutHead, frame]

@[simp] theorem frame_setInHead (graph : Graph) (sink : Sink) (head : Option Pipe) :
    (graph.setInHead sink head).frame = graph.frame := by
  simp [setInHead, frame]

@[simp] theorem frame_attachInlet (graph : Graph) (source : Source) (pipe : Pipe) :
    (graph.attachInlet source pipe).frame = graph.frame := by
  unfold attachInlet
  split <;> simp

@[simp] theorem frame_attachOutlet (graph : Graph) (pipe : Pipe) (sink : Sink) :
    (graph.attachOutlet pipe sink).frame = graph.frame := by
  unfold attachOutlet
  split <;> simp

@[simp] theorem frame_closeInlet (graph : Graph) (links : Links) :
    (graph.closeInlet links).frame = graph.frame := by
  unfold closeInlet
  repeat' split
  all_goals simp

@[simp] theorem frame_closeOutlet (graph : Graph) (links : Links) :
    (graph.closeOutlet links).frame = graph.frame := by
  unfold closeOutlet
  repeat' split
  all_goals simp

@[simp] theorem frame_hangOnSource (graph : Graph) (source : Source) (head : Option Pipe) :
    (graph.hangOnSource source head).frame = graph.frame := by
  cases head <;> simp [hangOnSource]

@[simp] theorem frame_hangOnSink (graph : Graph) (sink : Sink) (head : Option Pipe) :
    (graph.hangOnSink sink head).frame = graph.frame := by
  cases head <;> simp [hangOnSink]

/-! ## Functions that also change locks -/

/-- Other locks are all that is new in the frame. -/
theorem frame_relock (graph : Graph) (locks : List Lock) :
    ({ graph with locks } : Graph).frame = { graph.frame with locks } :=
  rfl

/-- An exchange of sources gives the locks other owners, and changes nothing else of the frame. -/
theorem frame_exchangeSources (graph : Graph) (one other : Source) :
    (graph.exchangeSources one other).frame =
      { graph.frame with
        locks := graph.locks.map fun lock =>
          { lock with owner := exchange one other lock.owner } } := by
  have rewired : ((((graph.setOutHead one (graph.outHead other)).setOutHead other
      (graph.outHead one)).hangOnSource other (graph.outHead one)).hangOnSource one
      (graph.outHead other)).frame = graph.frame := by simp
  unfold exchangeSources
  dsimp only
  rw [frame_relock, locks_of_frame rewired, rewired]

theorem frame_exchangeSinks (graph : Graph) (one other : Sink) :
    (graph.exchangeSinks one other).frame =
      { graph.frame with
        locks := graph.locks.map fun lock =>
          { lock with sink := exchange one other lock.sink } } := by
  have rewired : ((((graph.setInHead one (graph.inHead other)).setInHead other
      (graph.inHead one)).hangOnSink other (graph.inHead one)).hangOnSink one
      (graph.inHead other)).frame = graph.frame := by simp
  unfold exchangeSinks
  dsimp only
  rw [frame_relock, locks_of_frame rewired, rewired]

end Graph

end MidiTransport.Patchbay
