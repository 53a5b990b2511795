import MidiTransport.Message.Basic

/-!
# Sources, sinks and the pipes between them

A patchbay routes messages from sources to sinks through pipes. It names all three by
number. The pipes of a source form a chain: the source names its first pipe and every
pipe names the next one. The pipes of a sink form a chain in the same way, so a pipe
belongs to two chains, one at its inlet and one at its outlet. At both ends
it also names what it hangs on, which is the source or the sink for the first pipe of a
chain and the pipe before it for all others.

Queries answer for unknown numbers as for things that are not connected. A walk along
a chain is bounded by the number of pipes, which no chain exceeds.
-/

namespace MidiTransport.Patchbay

/-- The number of a source. -/
structure Source where
  index : Nat
  deriving DecidableEq, Repr

/-- The number of a sink. -/
structure Sink where
  index : Nat
  deriving DecidableEq, Repr

/-- The number of a pipe. -/
structure Pipe where
  index : Nat
  deriving DecidableEq, Repr

def Source.display (source : Source) : String := s!"source #{source.index}"

def Sink.display (sink : Sink) : String := s!"sink #{sink.index}"

def Pipe.display (pipe : Pipe) : String := s!"pipe #{pipe.index}"

/-- What a pipe hangs on at its inlet. -/
inductive Inlet where
  | source (source : Source)
  /-- The pipe before it in the chain of a source. -/
  | pipe (pipe : Pipe)
  deriving DecidableEq, Repr

/-- What a pipe hangs on at its outlet. -/
inductive Outlet where
  | sink (sink : Sink)
  /-- The pipe before it in the chain of a sink. -/
  | pipe (pipe : Pipe)
  deriving DecidableEq, Repr

/-- The places of a pipe in two chains. -/
structure Links where
  inlet : Option Inlet
  outlet : Option Outlet
  /-- The next pipe of the same sink. -/
  nextIn : Option Pipe
  /-- The next pipe of the same source. -/
  nextOut : Option Pipe
  deriving DecidableEq, Repr

/-- The links of a pipe outside of all chains. -/
def Links.loose : Links := ⟨none, none, none, none⟩

/-- A cable of a sink that only its owner may use. -/
structure Lock where
  sink : Sink
  cable : Cable
  owner : Source
  deriving DecidableEq, Repr

/-- Sources, sinks and pipes, each kind in the order of its numbers. -/
structure Graph where
  /-- The first pipe of each source. -/
  sources : Array (Option Pipe)
  /-- The first pipe of each sink. -/
  sinks : Array (Option Pipe)
  pipes : Array Links
  /-- The locks, at most one for a cable of a sink. -/
  locks : List Lock
  /-- The number of messages that a lock has held off. -/
  dropped : Nat
  deriving DecidableEq, Repr

namespace Graph

/-- A graph of nothing. -/
def empty : Graph := ⟨#[], #[], #[], [], 0⟩

/-- Add an unconnected source. -/
def addSource (graph : Graph) : Graph × Source :=
  ({ graph with sources := graph.sources.push none }, ⟨graph.sources.size⟩)

/-- Add an unconnected sink. -/
def addSink (graph : Graph) : Graph × Sink :=
  ({ graph with sinks := graph.sinks.push none }, ⟨graph.sinks.size⟩)

/-- Add an unconnected pipe. -/
def addPipe (graph : Graph) : Graph × Pipe :=
  ({ graph with pipes := graph.pipes.push .loose }, ⟨graph.pipes.size⟩)

def knowsSource (graph : Graph) (source : Source) : Bool := source.index < graph.sources.size

def knowsSink (graph : Graph) (sink : Sink) : Bool := sink.index < graph.sinks.size

/-- The links of a pipe. -/
def links? (graph : Graph) (pipe : Pipe) : Option Links := graph.pipes[pipe.index]?

/-- The first pipe of a source. -/
def outHead (graph : Graph) (source : Source) : Option Pipe :=
  graph.sources[source.index]?.join

/-- The first pipe of a sink. -/
def inHead (graph : Graph) (sink : Sink) : Option Pipe := graph.sinks[sink.index]?.join

/-- What a pipe hangs on at its inlet. -/
def inlet (graph : Graph) (pipe : Pipe) : Option Inlet :=
  (graph.links? pipe).bind (·.inlet)

/-- What a pipe hangs on at its outlet. -/
def outlet (graph : Graph) (pipe : Pipe) : Option Outlet :=
  (graph.links? pipe).bind (·.outlet)

/-- The next pipe of the same sink. -/
def nextIn (graph : Graph) (pipe : Pipe) : Option Pipe := (graph.links? pipe).bind (·.nextIn)

/-- The next pipe of the same source. -/
def nextOut (graph : Graph) (pipe : Pipe) : Option Pipe := (graph.links? pipe).bind (·.nextOut)

/-- The pipes from a first one on, in as many steps as are allowed. -/
def follow (next : Pipe → Option Pipe) : Nat → Option Pipe → List Pipe
  | 0, _ | _, none => []
  | steps + 1, some pipe => pipe :: follow next steps (next pipe)

/-- The pipes of a source, in the order of their connection. -/
def outChain (graph : Graph) (source : Source) : List Pipe :=
  follow graph.nextOut graph.pipes.size (graph.outHead source)

/-- The pipes of a sink, in the order of their connection. -/
def inChain (graph : Graph) (sink : Sink) : List Pipe :=
  follow graph.nextIn graph.pipes.size (graph.inHead sink)

/-- The source at the start of a pipe's chain, in as many steps as are allowed. -/
def sourceWithin (graph : Graph) : Nat → Pipe → Option Source
  | 0, _ => none
  | steps + 1, pipe =>
    match graph.inlet pipe with
    | none => none
    | some (.source source) => some source
    | some (.pipe before) => graph.sourceWithin steps before

/-- The sink at the start of a pipe's chain, in as many steps as are allowed. -/
def sinkWithin (graph : Graph) : Nat → Pipe → Option Sink
  | 0, _ => none
  | steps + 1, pipe =>
    match graph.outlet pipe with
    | none => none
    | some (.sink sink) => some sink
    | some (.pipe before) => graph.sinkWithin steps before

/-- The source whose messages a pipe carries. -/
def sourceOf (graph : Graph) (pipe : Pipe) : Option Source :=
  graph.sourceWithin graph.pipes.size pipe

/-- The sink that receives what a pipe carries. -/
def sinkOf (graph : Graph) (pipe : Pipe) : Option Sink :=
  graph.sinkWithin graph.pipes.size pipe

/-- The sinks that a source reaches, once for each pipe. -/
def sinksOf (graph : Graph) (source : Source) : List Sink :=
  (graph.outChain source).filterMap graph.sinkOf

/-- The sources that reach a sink, once for each pipe. -/
def sourcesOf (graph : Graph) (sink : Sink) : List Source :=
  (graph.inChain sink).filterMap graph.sourceOf

/-- Change the links of a pipe. -/
def modifyLinks (graph : Graph) (pipe : Pipe) (change : Links → Links) : Graph :=
  { graph with pipes := graph.pipes.modify pipe.index change }

/-- Change the first pipe of a source. -/
def setOutHead (graph : Graph) (source : Source) (head : Option Pipe) : Graph :=
  { graph with sources := graph.sources.setIfInBounds source.index head }

/-- Change the first pipe of a sink. -/
def setInHead (graph : Graph) (sink : Sink) (head : Option Pipe) : Graph :=
  { graph with sinks := graph.sinks.setIfInBounds sink.index head }

end Graph

end MidiTransport.Patchbay
