import MidiTransport.Ble.BufferedReader
import MidiTransport.Ble.Transmitter
import MidiTransport.Mailbox
import MidiTransport.Patchbay.StreamRouter
import MidiTransport.Stream.Drain
import MidiTransport.Stream.Encoder
import MidiTransport.Text.HexReader
import MidiTransport.Usb.Drain
import MidiTransport.Usb.Encoder
import MidiTransport.Proofs.Stream.Grammar
import MidiTransport.Proofs.Usb.Feeding
import MidiTransport.Proofs.Usb.Groups
import MidiTransport.Proofs.Usb.Conversation
import MidiTransport.Proofs.Usb.Cutoff
import MidiTransport.Proofs.Bridge
import MidiTransport.Proofs.Message.Sequence
import MidiTransport.Proofs.Message.Interleaving
import MidiTransport.Proofs.Message.Chunks
import MidiTransport.Proofs.Stream.Conversation
import MidiTransport.Proofs.Stream.RoundTrip
import MidiTransport.Proofs.Stream.Slicing
import MidiTransport.Proofs.Ble.Packing
import MidiTransport.Proofs.Ble.Session
import MidiTransport.Proofs.Ble.Transmission
import MidiTransport.Proofs.Ble.Clock
import MidiTransport.Proofs.Ble.Stamping
import MidiTransport.Proofs.Ble.Additions
import MidiTransport.Proofs.Ble.PacketTimes
import MidiTransport.Proofs.Ble.Timeliness
import MidiTransport.Proofs.Ble.RingMemory
import MidiTransport.Proofs.Ble.RingLayout
import MidiTransport.Proofs.Ble.RingQueue
import MidiTransport.Proofs.Ble.Parts
import MidiTransport.Proofs.Ble.Buffering
import MidiTransport.Proofs.Ble.Restarting
import MidiTransport.Proofs.Ble.PacketSizes
import MidiTransport.Proofs.Ble.RingSpace
import MidiTransport.Proofs.Ble.Skipping
import MidiTransport.Proofs.Usb.Cuts
import MidiTransport.Proofs.Patchbay.Frame
import MidiTransport.Proofs.Patchbay.Links
import MidiTransport.Proofs.Patchbay.Chains
import MidiTransport.Proofs.Patchbay.Rewiring
import MidiTransport.Proofs.Patchbay.Operations
import MidiTransport.Proofs.Patchbay.Walks
import MidiTransport.Proofs.Patchbay.Reach
import MidiTransport.Proofs.Patchbay.Exclusivity
import MidiTransport.Proofs.Patchbay.Failures
import MidiTransport.Proofs.Patchbay.Identity
import MidiTransport.Proofs.Patchbay.Disconnecting
import MidiTransport.Proofs.Patchbay.Relocation
import MidiTransport.Proofs.Patchbay.Delivery
import MidiTransport.Proofs.Patchbay.Routes
import MidiTransport.Proofs.Stream.Interruptions
import MidiTransport.Proofs.Usb.Cables
import MidiTransport.Proofs.Ble.Compression
import MidiTransport.Proofs.Ble.Spreading
import MidiTransport.Proofs.Usb.Reassembly
import MidiTransport.Proofs.Ble.PacketStarts
import MidiTransport.Proofs.Ble.RingAccess
import MidiTransport.Proofs.Mailbox.Conservation
import MidiTransport.Proofs.Text.DigitRuns
import MidiTransport.Proofs.Safety
