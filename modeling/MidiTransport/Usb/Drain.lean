import MidiTransport.Usb.Decoder

/-!
# Reading all packets

`Decoder.pulls` and `Decoder.drain` pull until no packet is left and none is held
back. They end because every pull but the last one reads a packet or comes closer to
the end of what the packet held back can bring about (`Decoder.pull_decreases`).
-/

namespace MidiTransport.Usb

open SysEx (Assembly)

namespace Decoder

/-- A bound on the messages that a packet can bring about without new input. -/
def packetBacklog (decoder : Decoder) (packet : EventPacket) : Nat :=
  if (decoder.assembly packet.cable).handedOut then 1 else 2

/-- A bound on the messages that the packet held back can bring about. -/
def backlog (decoder : Decoder) : Nat :=
  match decoder.held with
  | none => 0
  | some packet => decoder.packetBacklog packet

theorem backlog_le (decoder : Decoder) : decoder.backlog ≤ 2 := by
  unfold backlog
  split
  · omega
  · unfold packetBacklog
    split <;> omega

@[simp] theorem assembly_setAssembly (decoder : Decoder) (cable : Cable) (assembly : Assembly) :
    (decoder.setAssembly cable assembly).assembly cable = assembly := by
  simp [setAssembly, Decoder.assembly]

/-- A started message has room for any packet. -/
theorem hasRoom_start (assembly : Assembly) {count : Nat} (small : count ≤ 3) :
    assembly.start.hasRoom count = true := by
  simp [Assembly.hasRoom, Assembly.start, Assembly.used, Assembly.capacity]
  omega

/-- Without room for a packet, the cable's piece has not been handed out yet, and the
packet does not start a message. -/
theorem opened_of_hasRoom_eq_false {decoder : Decoder} {packet : EventPacket} {count : Nat}
    (small : count ≤ 3) (full : (decoder.opened packet).hasRoom count = false) :
    (decoder.assembly packet.cable).handedOut = false := by
  unfold opened at full
  dsimp only at full
  split at full
  · rw [hasRoom_start _ small] at full
    cases full
  · exact Assembly.handedOut_eq_false_of_hasRoom (by unfold Assembly.capacity; omega) full

theorem backlog_handOut {decoder : Decoder} {packet : EventPacket} {assembly : Assembly} :
    ({ decoder.setAssembly packet.cable assembly.handOut with
      held := some packet }.announceChunk packet.cable).1.backlog = 1 := by
  have handed := assembly_setAssembly decoder packet.cable assembly.handOut
  change (if ((decoder.setAssembly packet.cable assembly.handOut).assembly
    packet.cable).handedOut then 1 else 2) = 1
  rw [handed]
  rfl

/-- A packet is held back only if its cable's piece has not been handed out yet. -/
theorem backlog_takeSysEx_lt {decoder : Decoder} {packet : EventPacket} {count : Nat}
    {ends : Bool} (clear : decoder.held = none) (small : count ≤ 3) :
    (decoder.takeSysEx packet count ends).1.backlog < decoder.packetBacklog packet := by
  have settled {next : Decoder} (nextClear : next.held = none) :
      next.backlog < decoder.packetBacklog packet := by
    simp only [backlog, nextClear, packetBacklog]
    split <;> omega
  unfold takeSysEx
  dsimp only
  split
  · split
    · split
      · exact settled clear
      · exact settled clear
    · rename_i full
      have fresh := opened_of_hasRoom_eq_false small (by simpa using full)
      rw [backlog_handOut]
      simp [packetBacklog, fresh]
  · exact settled clear

/-- Acting on a packet lowers the bound, so a packet held back by one pull is used up
within the next few. -/
theorem backlog_feed_lt (decoder : Decoder) (packet : EventPacket)
    (clear : decoder.held = none) :
    (decoder.feed packet).1.backlog < decoder.packetBacklog packet := by
  have settled {next : Decoder} (nextClear : next.held = none) :
      next.backlog < decoder.packetBacklog packet := by
    simp only [backlog, nextClear, packetBacklog]
    split <;> omega
  unfold feed
  split
  · exact settled clear
  · exact settled clear
  · exact settled clear
  · exact settled clear
  · exact backlog_takeSysEx_lt clear (by decide)
  · split
    · exact backlog_takeSysEx_lt clear (by decide)
    · exact settled clear
  · exact backlog_takeSysEx_lt clear (by decide)
  · exact backlog_takeSysEx_lt clear (by decide)
  all_goals try exact settled clear
  unfold takeSingleByte
  dsimp only
  split
  · exact settled clear
  · split <;> exact settled clear
  · exact settled clear

/-- A message that comes from the packet held back lowers the bound. -/
theorem backlog_resume_lt {decoder : Decoder} {event : Event}
    (completed : decoder.resume.2 = some event) :
    decoder.resume.1.backlog < decoder.backlog := by
  unfold resume at completed ⊢
  split at completed
  · cases completed
  · rename_i packet held
    have lowered := backlog_feed_lt { decoder with held := none } packet rfl
    have same : decoder.backlog = packetBacklog { decoder with held := none } packet := by
      unfold backlog
      rw [held]
      rfl
    rw [same]
    exact lowered

/-- Looking for a message reads at least one packet, if there is one. -/
theorem length_rest_scan_lt (decoder : Decoder) {input : List EventPacket}
    (nonempty : input ≠ []) : (decoder.scan input).rest.length < input.length := by
  induction input generalizing decoder with
  | nil => exact absurd rfl nonempty
  | cons packet rest ih =>
    unfold scan
    split
    · exact Nat.lt_succ_self _
    · split
      · exact Nat.lt_succ_self _
      · rename_i next _
        cases rest with
        | nil => simp [scan]
        | cons => exact Nat.lt_succ_of_lt (ih next (by simp))

/-- Every pull but the last one comes closer to the end of the input. -/
theorem pull_decreases {decoder : Decoder} {input : List EventPacket}
    (more : (decoder.pull input).more = true) :
    3 * (decoder.pull input).rest.length + (decoder.pull input).decoder.backlog <
      3 * input.length + decoder.backlog := by
  unfold pull at more ⊢
  split at more
  · rename_i next found equation
    have lowered : decoder.resume.1.backlog < decoder.backlog :=
      backlog_resume_lt (congrArg Prod.snd equation)
    rw [equation] at lowered
    dsimp only at lowered ⊢
    omega
  · rename_i next equation
    cases input with
    | nil => simp [scan, Pull.more] at more
    | cons packet rest =>
      have shorter := next.length_rest_scan_lt (List.cons_ne_nil packet rest)
      have bounded := (next.scan (packet :: rest)).decoder.backlog_le
      omega

/-- The pulls that use up the packets. The last one leaves nothing to be found. -/
def pulls (decoder : Decoder) (input : List EventPacket) : List Pull :=
  if _more : (decoder.pull input).more = true then
    decoder.pull input :: (decoder.pull input).decoder.pulls (decoder.pull input).rest
  else [decoder.pull input]
termination_by 3 * input.length + decoder.backlog
decreasing_by exact pull_decreases _more

/-- What is found in the packets, and the decoder behind them. -/
def drain (decoder : Decoder) (input : List EventPacket) : List Event × Decoder :=
  if _more : (decoder.pull input).more = true then
    let (later, final) := (decoder.pull input).decoder.drain (decoder.pull input).rest
    ((decoder.pull input).event?.toList ++ later, final)
  else ([], (decoder.pull input).decoder)
termination_by 3 * input.length + decoder.backlog
decreasing_by exact pull_decreases _more

/-- The messages in the packets. -/
def messages (decoder : Decoder) (input : List EventPacket) : List Message :=
  (decoder.drain input).1.map (·.message)

end Decoder

end MidiTransport.Usb
