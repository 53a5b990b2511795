import MidiTransport.Proofs.Ble.Parts

/-!
# Malformed packets leave no trace

A malformed packet is skipped, and so are the parts that belong to it. The reader keeps everything
that the packets before it have left behind: a system exclusive message that is open, a running
status, and the bytes of a message that is not complete. A packet that is not malformed sets its
cursor anew, whatever was skipped in front of it. So a reader that has skipped packets and one that
has never been given them (`Reader.Shadows`) answer to the next packet in the same way, and the
calls that skip can be left out of a transcript (`Reader.transcript_clean`).
-/

namespace MidiTransport.Ble

/-! ## Calls that are skipped -/

/-- A packet needs two bytes, and a first byte with a set top bit. -/
def isMalformed (packet : List UInt8) : Bool :=
  decide (packet.length < 2) || packet.head?.any (· < 0x80)

/-- With two bytes, only the first one can make a packet malformed. -/
theorem isMalformed_cons_cons (header second : UInt8) (rest : List UInt8) :
    isMalformed (header :: second :: rest) = isData header := by
  have long : ¬ rest.length + 1 + 1 < 2 := by omega
  rw [Bool.eq_iff_iff, isData_iff]
  simp [isMalformed, long]

/-- Is a call skipped? A part shares the fate of the packet that it belongs to. -/
def isSkipped (skipping : Bool) : ChunkKind × List UInt8 → Bool
  | (.packet, data) => isMalformed data
  | (.continuation, _) => skipping

section

variable {Answer : Type}

/-- The calls that are left when malformed packets and their parts are deleted, with what is noted
of each. -/
def clean (skipping : Bool) : List ((ChunkKind × List UInt8) × Answer) →
    List ((ChunkKind × List UInt8) × Answer)
  | [] => []
  | call :: later =>
    if isSkipped skipping call.1 then clean true later else call :: clean false later

/-- The calls that are deleted. -/
def deleted (skipping : Bool) : List ((ChunkKind × List UInt8) × Answer) →
    List ((ChunkKind × List UInt8) × Answer)
  | [] => []
  | call :: later =>
    if isSkipped skipping call.1 then call :: deleted true later else deleted false later

end

namespace Cursor

/-- Every cursor skips a malformed packet, and changes in nothing else. -/
theorem beginPacket_of_malformed {packet : List UInt8} (malformed : isMalformed packet = true)
    (cursor : Cursor) :
    cursor.beginPacket packet = ({ cursor with discarding := true }, false) := by
  match packet with
  | [] | [_] => rfl
  | header :: second :: rest =>
    rw [isMalformed_cons_cons] at malformed
    simp [beginPacket, malformed]

/-- A packet that is not malformed is begun in the same way by all cursors. -/
theorem beginPacket_of_formed {packet : List UInt8} (formed : isMalformed packet = false)
    (left right : Cursor) : left.beginPacket packet = right.beginPacket packet := by
  match packet with
  | [] | [_] => simp [isMalformed] at formed
  | header :: second :: rest =>
    rw [isMalformed_cons_cons] at formed
    simp [beginPacket, formed]

end Cursor

namespace Reader

/-! ## Transcripts -/

/-- The calls of a reader, each with the messages that it brings and their times. -/
def transcript (reader : Reader) : List (ChunkKind × List UInt8) →
    List ((ChunkKind × List UInt8) × List (Message × Nat))
  | [] => []
  | call :: later => (call, (reader.readChunk call).1) :: (reader.readChunk call).2.transcript later

variable {left right : Reader} {skipping : Bool} {call : ChunkKind × List UInt8}

/-- The left reader has been given malformed packets that the right one has not been given. While it
is skipping, only its cursor has gone another way. -/
structure Shadows (skipping : Bool) (left right : Reader) : Prop where
  clear : left.decoder.held = none
  decoder : left.decoder = right.decoder
  skips : skipping = true → left.cursor.discarding = true
  cursor : skipping = false → left.cursor.beginPart = right.cursor.beginPart

/-- Readers that have been given the same are in the same place. -/
theorem shadows_self {reader : Reader} (clear : reader.decoder.held = none) :
    Shadows false reader reader :=
  ⟨clear, rfl, fun skips => absurd skips Bool.false_ne_true, fun _ => rfl⟩

namespace Shadows

/-- A call that is skipped brings nothing, and the readers stay alike without it. -/
theorem skip (shadows : Shadows skipping left right) (skipped : isSkipped skipping call = true) :
    (left.readChunk call).1 = [] ∧ Shadows true (left.readChunk call).2 right := by
  obtain ⟨kind, data⟩ := call
  cases kind with
  | packet =>
    have begun := Cursor.beginPacket_of_malformed skipped left.cursor
    rw [readChunk, readPacket, begun]
    exact ⟨rfl, shadows.clear, shadows.decoder, fun _ => rfl, by simp⟩
  | continuation =>
    obtain rfl : skipping = true := skipped
    rw [readChunk, readPart_of_discarding left shadows.clear (shadows.skips rfl)]
    exact ⟨rfl, shadows.clear, shadows.decoder, fun _ => shadows.skips rfl, by simp⟩

/-- A call that is not skipped brings the same with both readers, and behind it they are the
same. -/
theorem readChunk_eq (shadows : Shadows skipping left right)
    (kept : isSkipped skipping call = false) : left.readChunk call = right.readChunk call := by
  obtain ⟨kind, data⟩ := call
  cases kind with
  | packet =>
    have begun := Cursor.beginPacket_of_formed kept left.cursor right.cursor
    rw [readChunk, readChunk, readPacket, readPacket, begun, shadows.decoder]
  | continuation =>
    obtain rfl : skipping = false := kept
    have same : left.rewind = right.rewind := by
      rw [rewind, rewind, shadows.cursor rfl, shadows.decoder]
    exact readPart_congr same data

/-- Without the calls that are skipped the other reader has the same transcript. -/
theorem transcript_eq (shadows : Shadows skipping left right)
    (calls : List (ChunkKind × List UInt8)) :
    right.transcript ((clean skipping (left.transcript calls)).map Prod.fst) =
        clean skipping (left.transcript calls) ∧
      ∀ entry ∈ deleted skipping (left.transcript calls), entry.2 = [] := by
  induction calls generalizing left right skipping with
  | nil => exact ⟨rfl, fun _ member => absurd member List.not_mem_nil⟩
  | cons call later ih =>
    cases skipped : isSkipped skipping call with
    | true =>
      obtain ⟨nothing, after⟩ := shadows.skip skipped
      obtain ⟨same, silent⟩ := ih after
      simp only [transcript, clean, deleted, skipped, if_true]
      exact ⟨same, List.forall_mem_cons.mpr ⟨nothing, silent⟩⟩
    | false =>
      have here := shadows.readChunk_eq skipped
      have clear := held_readChunk shadows.clear call
      obtain ⟨same, silent⟩ := ih (shadows_self clear)
      simp only [transcript, clean, deleted, skipped, Bool.false_eq_true, if_false, List.map_cons]
      rw [← here, same]
      exact ⟨rfl, silent⟩

end Shadows

/-- In the calls of a new reader malformed packets and all parts that follow them may be deleted.
The calls that are left bring the same messages at the same times, and those that are deleted bring
none. -/
theorem transcript_clean (calls : List (ChunkKind × List UInt8)) :
    initial.transcript ((clean false (initial.transcript calls)).map Prod.fst) =
        clean false (initial.transcript calls) ∧
      ∀ entry ∈ deleted false (initial.transcript calls), entry.2 = [] := by
  have start : Shadows false initial initial := shadows_self rfl
  exact start.transcript_eq calls

/-- A packet without a header and a part of it between two packets of one message. -/
example :
    (clean false (initial.transcript [(.packet, [0x80, 0x82, 0xF0, 0x01]),
        (.packet, [0x10, 0x90, 0x7F]), (.continuation, [0xF8]),
        (.packet, [0x80, 0x02, 0x83, 0xF7])])).map Prod.snd =
      [[], [(.sysEx ⟨[0xF0, 0x01, 0x02, 0xF7], .first, true, true⟩, 3)]] := by
  decide +kernel

end Reader

end MidiTransport.Ble
