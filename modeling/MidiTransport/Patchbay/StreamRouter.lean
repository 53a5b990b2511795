import MidiTransport.Patchbay.Dispatch
import MidiTransport.Patchbay.Wiring
import MidiTransport.Stream.Drain
import MidiTransport.Stream.Encoder

/-!
# Routing byte streams

A stream router decodes the byte stream of each source, routes the messages through a
graph and encodes what each sink receives. With locking, a source owns its sinks while
one of its system exclusive messages is under way, so that the pieces of the message
stay together.
-/

namespace MidiTransport.Patchbay

/-- A graph with a decoder for each source and an encoder for each sink. -/
structure StreamRouter where
  graph : Graph
  decoders : Array Stream.Decoder
  encoders : Array Stream.Encoder
  /-- A source locks its sinks during a system exclusive message. -/
  locking : Bool

namespace StreamRouter

/-- Add so many unconnected sources and sinks. -/
def endpoints (sources sinks : Nat) : Graph :=
  Nat.repeat (·.addSink.1) sinks (Nat.repeat (·.addSource.1) sources .empty)

/-- A router with a pipe for each route. -/
def ofRoutes (sources sinks : Nat) (routes : List (Source × Sink))
    (locking compresses : Bool) : StreamRouter where
  graph := routes.foldl
    (fun graph (source, sink) =>
      let (added, pipe) := graph.addPipe
      (added.connect source pipe sink).1)
    (endpoints sources sinks)
  decoders := Array.replicate sources (.initial false)
  encoders := Array.replicate sinks (.initial compresses)
  locking

/-- Is a message a piece behind which its system exclusive message goes on? -/
def goesOn : Message → Bool
  | .sysEx piece => !piece.last
  | _ => false

/-- Is a message a piece with which its system exclusive message ends? -/
def ends : Message → Bool
  | .sysEx piece => piece.last
  | _ => false

/-- Encode a message for several sinks, one after the other. -/
def deliver (encoders : Array Stream.Encoder) (message : Message) :
    List Sink → List (Sink × List UInt8) × Array Stream.Encoder
  | [] => ([], encoders)
  | sink :: sinks =>
    match encoders[sink.index]? with
    | none => deliver encoders message sinks
    | some encoder =>
      let (bytes, next) := encoder.encode message
      let (later, final) := deliver (encoders.setIfInBounds sink.index next) message sinks
      ((sink, bytes) :: later, final)

/-- Route one message of a source. The answer holds what each sink receives. -/
def route (router : StreamRouter) (source : Source) (message : Message) :
    List (Sink × List UInt8) × StreamRouter :=
  let locked :=
    if router.locking && goesOn message then (router.graph.lock source message.cable).1
    else router.graph
  let (counted, sinks) := locked.dispatch source message
  let unlocked :=
    if router.locking && ends message then counted.unlock source message.cable else counted
  let (delivered, encoders) := deliver router.encoders message sinks
  (delivered, { router with graph := unlocked, encoders })

/-- Route several messages of a source. -/
def routeAll (router : StreamRouter) (source : Source) :
    List Message → List (Sink × List UInt8) × StreamRouter
  | [] => ([], router)
  | message :: messages =>
    let (delivered, next) := router.route source message
    let (later, final) := next.routeAll source messages
    (delivered ++ later, final)

/-- What each sink receives altogether, in the order of the sinks, without those that
receive nothing. -/
def gather (sinks : Nat) (delivered : List (Sink × List UInt8)) :
    List (Sink × List UInt8) :=
  (List.range sinks).filterMap fun index =>
    match delivered.filter (·.1.index == index) with
    | [] => none
    | parts => some (⟨index⟩, parts.flatMap (·.2))

/-- Feed bytes into the stream of a source. The answer holds the bytes for each sink that
received a message. -/
def feed (router : StreamRouter) (source : Source) (bytes : List UInt8) :
    List (Sink × List UInt8) × StreamRouter :=
  match router.decoders[source.index]? with
  | none => ([], router)
  | some decoder =>
    let (events, next) := decoder.drain bytes
    let (delivered, final) :=
      { router with
        decoders := router.decoders.setIfInBounds source.index next }.routeAll source
          (events.map Event.message)
    (gather router.encoders.size delivered, final)

end StreamRouter

end MidiTransport.Patchbay
