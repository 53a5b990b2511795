import MidiTransport.Patchbay.Lock

/-!
# Changing the wiring

Pipes are connected at the end of the chains of a source and a sink, and may be taken
out of any place. Two sources, or two sinks, may exchange all that is connected to
them. Locks follow the wiring: a lock goes when its owner no longer reaches the sink,
and moves along with an exchange.

An operation that may fail answers with the graph behind it and its outcome.
-/

namespace MidiTransport.Patchbay

/-- A mistake in the wiring. -/
inductive WiringError where
  | inletTaken (pipe : Pipe)
  | outletTaken (pipe : Pipe)
  | sourceTaken (source : Source)
  | sinkTaken (sink : Sink)
  | noSuchPipe (pipe : Pipe)
  | noSuchSource (source : Source)
  | noSuchSink (sink : Sink)
  deriving DecidableEq, Repr

/-- What is wrong. -/
def WiringError.message : WiringError → String
  | inletTaken pipe => pipe.display ++ " is already connected to a source"
  | outletTaken pipe => pipe.display ++ " is already connected to a sink"
  | sourceTaken source => source.display ++ " is already connected"
  | sinkTaken sink => sink.display ++ " is already connected"
  | noSuchPipe pipe => "unknown " ++ pipe.display
  | noSuchSource source => "unknown " ++ source.display
  | noSuchSink sink => "unknown " ++ sink.display

/-- A graph after an attempt to change it, and how the attempt went. -/
abbrev Attempt := Graph × Except WiringError Unit

namespace Graph

/-! ## Conditions -/

/-- The source exists. -/
def requireSource (graph : Graph) (source : Source) : Except WiringError Unit :=
  if graph.knowsSource source then .ok () else .error (.noSuchSource source)

/-- The sink exists. -/
def requireSink (graph : Graph) (sink : Sink) : Except WiringError Unit :=
  if graph.knowsSink sink then .ok () else .error (.noSuchSink sink)

/-- The pipe exists and its inlet is free. -/
def requireFreeInlet (graph : Graph) (pipe : Pipe) : Except WiringError Unit :=
  match graph.links? pipe with
  | none => .error (.noSuchPipe pipe)
  | some found => if found.inlet.isSome then .error (.inletTaken pipe) else .ok ()

/-- The pipe exists and its outlet is free. -/
def requireFreeOutlet (graph : Graph) (pipe : Pipe) : Except WiringError Unit :=
  match graph.links? pipe with
  | none => .error (.noSuchPipe pipe)
  | some found => if found.outlet.isSome then .error (.outletTaken pipe) else .ok ()

/-- The pipe exists and is free. -/
def requireFree (graph : Graph) (pipe : Pipe) : Except WiringError Unit := do
  graph.requireFreeInlet pipe
  graph.requireFreeOutlet pipe

/-- Go on to another graph if a condition holds. -/
def proceed (graph : Graph) (condition : Except WiringError Unit) (next : Graph) : Attempt :=
  match condition with
  | .ok () => (next, .ok ())
  | .error error => (graph, .error error)

/-! ## Connecting -/

/-- Put a pipe at the end of the chain of a source. -/
def attachInlet (graph : Graph) (source : Source) (pipe : Pipe) : Graph :=
  match (graph.outChain source).getLast? with
  | none =>
    (graph.setOutHead source (some pipe)).modifyLinks pipe
      ({ · with inlet := some (.source source) })
  | some last =>
    (graph.modifyLinks last ({ · with nextOut := some pipe })).modifyLinks pipe
      ({ · with inlet := some (.pipe last) })

/-- Put a pipe at the end of the chain of a sink. -/
def attachOutlet (graph : Graph) (pipe : Pipe) (sink : Sink) : Graph :=
  match (graph.inChain sink).getLast? with
  | none =>
    (graph.setInHead sink (some pipe)).modifyLinks pipe
      ({ · with outlet := some (.sink sink) })
  | some last =>
    (graph.modifyLinks last ({ · with nextIn := some pipe })).modifyLinks pipe
      ({ · with outlet := some (.pipe last) })

/-- Connect the inlet of a pipe. -/
def connectInlet (graph : Graph) (source : Source) (pipe : Pipe) : Attempt :=
  graph.proceed
    (do graph.requireSource source; graph.requireFreeInlet pipe)
    (graph.attachInlet source pipe)

/-- Connect the outlet of a pipe. -/
def connectOutlet (graph : Graph) (pipe : Pipe) (sink : Sink) : Attempt :=
  graph.proceed
    (do graph.requireSink sink; graph.requireFreeOutlet pipe)
    (graph.attachOutlet pipe sink)

/-- Connect both sides of a pipe. All conditions are looked at before the inlet is connected,
and then once more, for each side on its own. -/
def connect (graph : Graph) (source : Source) (pipe : Pipe) (sink : Sink) : Attempt :=
  let condition : Except WiringError Unit := do
    graph.requireSource source
    graph.requireSink sink
    graph.requireFree pipe
  match condition with
  | .error error => (graph, .error error)
  | .ok () =>
    match graph.connectInlet source pipe with
    | (next, .ok ()) => next.connectOutlet pipe sink
    | (next, .error error) => (next, .error error)

/-- Connect two ends, each with a source and a sink, in both directions. All conditions
are looked at before the first direction is connected, except that the two pipes differ. -/
def connectBoth (graph : Graph) (sourceA : Source) (sinkA : Sink) (forward backward : Pipe)
    (sourceB : Source) (sinkB : Sink) : Attempt :=
  let condition : Except WiringError Unit := do
    graph.requireFree forward
    graph.requireFree backward
    graph.requireSource sourceB
    graph.requireSink sinkA
  match condition with
  | .error error => (graph, .error error)
  | .ok () =>
    match graph.connect sourceA forward sinkB with
    | (next, .ok ()) => next.connect sourceB backward sinkA
    | (next, .error error) => (next, .error error)

/-! ## Disconnecting -/

/-- Close the gap that a pipe leaves in the chain of its sink. -/
def closeOutlet (graph : Graph) (links : Links) : Graph :=
  match links.outlet with
  | none => graph
  | some place =>
    let joined :=
      match place with
      | .sink sink => graph.setInHead sink links.nextIn
      | .pipe before => graph.modifyLinks before ({ · with nextIn := links.nextIn })
    match links.nextIn with
    | none => joined
    | some next => joined.modifyLinks next ({ · with outlet := some place })

/-- Close the gap that a pipe leaves in the chain of its source. -/
def closeInlet (graph : Graph) (links : Links) : Graph :=
  match links.inlet with
  | none => graph
  | some place =>
    let joined :=
      match place with
      | .source source => graph.setOutHead source links.nextOut
      | .pipe before => graph.modifyLinks before ({ · with nextOut := links.nextOut })
    match links.nextOut with
    | none => joined
    | some next => joined.modifyLinks next ({ · with inlet := some place })

/-- Take a pipe out of both chains. The answer tells whether it was in one. -/
def disconnect (graph : Graph) (pipe : Pipe) : Graph × Bool :=
  match graph.links? pipe with
  | none => (graph, false)
  | some found =>
    if found.inlet.isNone && found.outlet.isNone then (graph, false)
    else
      let loosened := graph.modifyLinks pipe fun _ => .loose
      (((loosened.closeOutlet found).closeInlet found).releaseOrphans, true)

/-- Disconnect two pipes. The answer tells whether one of them was connected. -/
def disconnectBoth (graph : Graph) (forward backward : Pipe) : Graph × Bool :=
  let (first, one) := graph.disconnect forward
  let (second, other) := first.disconnect backward
  (second, one || other)

/-- Disconnect a pipe, if there is one. -/
def disconnect? (graph : Graph) (pipe? : Option Pipe) : Graph × Bool :=
  match pipe? with
  | none => (graph, false)
  | some pipe => graph.disconnect pipe

/-- Disconnect the first pipe in the chain of a source that leads to a sink. -/
def disconnectRoute (graph : Graph) (source : Source) (sink : Sink) : Graph × Bool :=
  graph.disconnect? ((graph.outChain source).find? (graph.sinkOf · == some sink))

/-- Disconnect the first pipe in the chain of a sink that comes from a source. -/
def disconnectRouteBackwards (graph : Graph) (sink : Sink) (source : Source) : Graph × Bool :=
  graph.disconnect? ((graph.inChain sink).find? (graph.sourceOf · == some source))

/-- Disconnect the first pipe of a source, as many times as are allowed. -/
def disconnectOut (source : Source) : Nat → Graph → Graph
  | 0, graph => graph
  | times + 1, graph =>
    match graph.outHead source with
    | none => graph
    | some pipe => disconnectOut source times (graph.disconnect pipe).1

/-- Disconnect the first pipe of a sink, as many times as are allowed. -/
def disconnectIn (sink : Sink) : Nat → Graph → Graph
  | 0, graph => graph
  | times + 1, graph =>
    match graph.inHead sink with
    | none => graph
    | some pipe => disconnectIn sink times (graph.disconnect pipe).1

/-- Disconnect all pipes of a source, one after the other. -/
def disconnectSource (graph : Graph) (source : Source) : Graph :=
  disconnectOut source graph.pipes.size graph

/-- Disconnect all pipes of a sink, one after the other. -/
def disconnectSink (graph : Graph) (sink : Sink) : Graph :=
  disconnectIn sink graph.pipes.size graph

/-! ## Exchanging -/

/-- The other one of two, for one of them. -/
def exchange {α : Type} [DecidableEq α] (one other value : α) : α :=
  if value = one then other else if value = other then one else value

/-- Let the first pipe of a chain hang on a source. -/
def hangOnSource (graph : Graph) (source : Source) (head : Option Pipe) : Graph :=
  match head with
  | none => graph
  | some pipe => graph.modifyLinks pipe ({ · with inlet := some (.source source) })

/-- Let the first pipe of a chain hang on a sink. -/
def hangOnSink (graph : Graph) (sink : Sink) (head : Option Pipe) : Graph :=
  match head with
  | none => graph
  | some pipe => graph.modifyLinks pipe ({ · with outlet := some (.sink sink) })

/-- Let two sources exchange their chains and their locks. -/
def exchangeSources (graph : Graph) (one other : Source) : Graph :=
  let headOne := graph.outHead one
  let headOther := graph.outHead other
  let wired := (((graph.setOutHead one headOther).setOutHead other headOne).hangOnSource other
    headOne).hangOnSource one headOther
  { wired with
    locks := wired.locks.map fun lock => { lock with owner := exchange one other lock.owner } }

/-- Let two sinks exchange their chains and their locks. -/
def exchangeSinks (graph : Graph) (one other : Sink) : Graph :=
  let headOne := graph.inHead one
  let headOther := graph.inHead other
  let wired := (((graph.setInHead one headOther).setInHead other headOne).hangOnSink other
    headOne).hangOnSink one headOther
  { wired with
    locks := wired.locks.map fun lock => { lock with sink := exchange one other lock.sink } }

/-- Exchange all connections and locks of two sources. -/
def swapSources (graph : Graph) (one other : Source) : Attempt :=
  graph.proceed
    (do graph.requireSource one; graph.requireSource other)
    (graph.exchangeSources one other)

/-- Exchange all connections and locks of two sinks. -/
def swapSinks (graph : Graph) (one other : Sink) : Attempt :=
  graph.proceed
    (do graph.requireSink one; graph.requireSink other)
    (graph.exchangeSinks one other)

/-- Move all connections and locks of a source to one that is not connected. That is an exchange,
which asks for both sources once more. -/
def moveSource (graph : Graph) (source target : Source) : Attempt :=
  let condition : Except WiringError Unit := do
    graph.requireSource source
    graph.requireSource target
    if (graph.outHead target).isSome && source != target then throw (.sourceTaken target)
  match condition with
  | .error error => (graph, .error error)
  | .ok () => graph.swapSources source target

/-- Move all connections and locks of a sink to one that is not connected. That is an exchange,
which asks for both sinks once more. -/
def moveSink (graph : Graph) (sink target : Sink) : Attempt :=
  let condition : Except WiringError Unit := do
    graph.requireSink sink
    graph.requireSink target
    if (graph.inHead target).isSome && sink != target then throw (.sinkTaken target)
  match condition with
  | .error error => (graph, .error error)
  | .ok () => graph.swapSinks sink target

end Graph

end MidiTransport.Patchbay
