import MidiTransport.Patchbay.Lock

/-!
# Delivering messages

A message goes from its source through all pipes of the source, the pipe connected
last first. A lock of another source holds it off, unless it is a real-time message.
-/

namespace MidiTransport.Patchbay.Graph

/-- May a message of this source go to this sink? -/
def admits (graph : Graph) (source : Source) (message : Message) (sink : Sink) : Bool :=
  message.isRealTime || !graph.lockedByOther sink message.cable (some source)

/-- Deliver a message of a source. The answer names the sinks that receive it, in order;
the graph behind it has counted the others. -/
def dispatch (graph : Graph) (source : Source) (message : Message) : Graph × List Sink :=
  let reached := (graph.outChain source).reverse.filterMap graph.sinkOf
  let (served, held) := reached.partition (graph.admits source message)
  ({ graph with dropped := graph.dropped + held.length }, served)

end MidiTransport.Patchbay.Graph
