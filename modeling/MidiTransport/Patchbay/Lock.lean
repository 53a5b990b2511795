import MidiTransport.Patchbay.Graph

/-!
# Locks

A source may lock a cable on all sinks that it reaches. The messages of other sources
for that cable are then held off from these sinks, except for real-time messages.
-/

namespace MidiTransport.Patchbay.Graph

/-- The owner of a cable of a sink. -/
def lockOwner (graph : Graph) (sink : Sink) (cable : Cable) : Option Source :=
  (graph.locks.find? fun lock => lock.sink == sink && lock.cable == cable).map (·.owner)

/-- Does somebody else own a cable of a sink? -/
def lockedByOther (graph : Graph) (sink : Sink) (cable : Cable) (source : Option Source) :
    Bool :=
  match graph.lockOwner sink cable with
  | none => false
  | some owner => some owner != source

/-- Let a source own a cable of a sink that nobody owns. -/
def addLock (graph : Graph) (source : Source) (cable : Cable) (sink : Sink) : Graph :=
  match graph.lockOwner sink cable with
  | none => { graph with locks := graph.locks ++ [⟨sink, cable, source⟩] }
  | some _ => graph

/-- Lock a cable on all sinks that a source reaches. Nothing is locked if somebody else
owns the cable on one of them. -/
def lock (graph : Graph) (source : Source) (cable : Cable) : Graph × Bool :=
  let sinks := graph.sinksOf source
  if sinks.any (graph.lockedByOther · cable (some source)) then (graph, false)
  else (sinks.foldl (·.addLock source cable ·) graph, true)

/-- Release all locks of a source for a cable. -/
def unlock (graph : Graph) (source : Source) (cable : Cable) : Graph :=
  { graph with
    locks := graph.locks.filter fun lock => !(lock.owner == source && lock.cable == cable) }

/-- Release the locks of sources on sinks that they no longer reach. -/
def releaseOrphans (graph : Graph) : Graph :=
  { graph with
    locks := graph.locks.filter fun lock => (graph.sinksOf lock.owner).contains lock.sink }

/-- Would a lock hold off what a pipe carries for a cable? -/
def isBlocked (graph : Graph) (pipe : Pipe) (cable : Cable) : Bool :=
  match graph.sinkOf pipe with
  | none => false
  | some sink => graph.lockedByOther sink cable (graph.sourceOf pipe)

/-- Can a source send messages for a cable to all sinks that it reaches? -/
def canWrite (graph : Graph) (source : Source) (cable : Cable) : Bool :=
  (graph.sinksOf source).all fun sink => !graph.lockedByOther sink cable (some source)

end MidiTransport.Patchbay.Graph
