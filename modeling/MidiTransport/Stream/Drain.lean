import MidiTransport.Stream.Decoder

/-!
# Reading a whole input

`Decoder.pulls` and `Decoder.drain` pull from an input until it is used up. They
end because every pull that completes a message reads a byte or comes closer to
the end of what the byte held back can bring about (`Decoder.pull_decreases`).
A pull that completes no message has read everything (`Decoder.rest_pull_eq_nil`).
-/

namespace MidiTransport.Stream

open SysEx (Assembly)

namespace Decoder

/-- A bound on the messages that an open system exclusive message can bring about
without new input. -/
def sysExBacklog (decoder : Decoder) : Nat :=
  1 + (if decoder.sysEx.receiving then 2 else 0) + (if decoder.sysEx.handedOut then 0 else 1)

/-- A bound on the messages that the byte held back can bring about. -/
def backlog (decoder : Decoder) : Nat :=
  match decoder.held with
  | none => 0
  | some _ => decoder.sysExBacklog

theorem sysExBacklog_le (decoder : Decoder) : decoder.sysExBacklog ≤ 4 := by
  unfold sysExBacklog
  split <;> split <;> omega

theorem backlog_le (decoder : Decoder) : decoder.backlog ≤ 4 := by
  unfold backlog
  split
  · omega
  · exact decoder.sysExBacklog_le

theorem backlog_eq_zero {decoder : Decoder} (clear : decoder.held = none) :
    decoder.backlog = 0 := by
  simp [backlog, clear]

theorem backlog_lt_sysExBacklog (decoder : Decoder) {next : Decoder}
    (clear : next.held = none) : next.backlog < decoder.sysExBacklog := by
  rw [backlog_eq_zero clear, sysExBacklog]
  omega

/-- A full piece is handed out once: the byte behind it then fits. -/
theorem backlog_handOut_lt {decoder : Decoder} {byte : UInt8}
    (full : decoder.sysEx.hasRoom 1 = false) :
    (decoder.handOut byte).1.backlog < decoder.sysExBacklog := by
  have fresh := Assembly.handedOut_eq_false_of_hasRoom (by decide) full
  simp only [handOut, backlog, sysExBacklog, Assembly.handOut, fresh, if_true,
    Bool.false_eq_true, if_false]
  exact Nat.lt_succ_self _

theorem backlog_closeSysEx_lt {decoder : Decoder} {status : UInt8} (clear : decoder.held = none)
    (receiving : decoder.sysEx.receiving = true) :
    (decoder.closeSysEx status).1.backlog < decoder.sysExBacklog := by
  unfold closeSysEx
  split
  · split
    · exact decoder.backlog_lt_sysExBacklog clear
    · rename_i full
      exact backlog_handOut_lt (by simpa using full)
  · simp only [backlog, sysExBacklog, Assembly.receiving_finish, Assembly.handedOut_finish,
      receiving, if_true, Bool.false_eq_true, if_false]
    omega

/-- Acting on a byte lowers the bound, so the byte held back by one pull is used up
within the next few. -/
theorem backlog_feed_lt (decoder : Decoder) (byte : UInt8) (clear : decoder.held = none) :
    (decoder.feed byte).1.backlog < decoder.sysExBacklog := by
  have settled {next : Decoder} (nextClear : next.held = none) :
      next.backlog < decoder.sysExBacklog :=
    decoder.backlog_lt_sysExBacklog nextClear
  unfold feed
  split
  · unfold takeData
    split
    · exact settled clear
    · split
      · split
        · exact settled clear
        · rename_i full
          exact backlog_handOut_lt (by simpa using full)
      · unfold takeChannelData
        split
        · exact settled clear
        · dsimp only
          split <;> exact settled clear
      · unfold takeCommonData
        split
        · exact settled clear
        · dsimp only
          split <;> exact settled clear
  · exact settled clear
  · unfold takeStatus
    split
    · rename_i receiving
      exact backlog_closeSysEx_lt clear receiving
    · split
      · exact settled clear
      · exact settled clear
      · unfold openCommon
        dsimp only
        split <;> exact settled clear
      · exact settled clear

/-- A message that comes from the byte held back lowers the bound. -/
theorem backlog_resume_lt {decoder : Decoder} {event : Event}
    (completed : decoder.resume.2 = some event) :
    decoder.resume.1.backlog < decoder.backlog := by
  unfold resume at completed ⊢
  split at completed
  · cases completed
  · rename_i byte held
    have lowered := backlog_feed_lt { decoder with held := none } byte rfl
    have same : decoder.backlog = sysExBacklog { decoder with held := none } := by
      simp [backlog, held, sysExBacklog]
    rw [same]
    exact lowered

/-- A message found in the input has used up some of it. -/
theorem length_rest_scan_lt {decoder : Decoder} {input : List UInt8} {event : Event}
    (completed : (decoder.scan input).event? = some event) :
    (decoder.scan input).rest.length < input.length := by
  induction input generalizing decoder with
  | nil => simp [scan] at completed
  | cons byte rest ih =>
    unfold scan at completed ⊢
    split at completed
    · simp_all
    · rename_i next equation
      exact Nat.lt_succ_of_lt (ih completed)

/-- If no message is found, all of the input has been read. -/
theorem rest_scan_eq_nil {decoder : Decoder} {input : List UInt8}
    (dry : (decoder.scan input).event? = none) : (decoder.scan input).rest = [] := by
  induction input generalizing decoder with
  | nil => rfl
  | cons byte rest ih =>
    unfold scan at dry ⊢
    split at dry
    · cases dry
    · rename_i next equation
      exact ih dry

/-- Every pull that completes a message comes closer to the end of the input. -/
theorem pull_decreases {decoder : Decoder} {input : List UInt8} {event : Event}
    (completed : (decoder.pull input).event? = some event) :
    5 * (decoder.pull input).rest.length + (decoder.pull input).decoder.backlog <
      5 * input.length + decoder.backlog := by
  unfold pull at completed ⊢
  split at completed
  · rename_i next found equation
    have lowered : decoder.resume.1.backlog < decoder.backlog :=
      backlog_resume_lt (congrArg Prod.snd equation)
    rw [equation] at lowered
    dsimp only at lowered ⊢
    omega
  · rename_i next equation
    have shorter := length_rest_scan_lt completed
    have bounded := (next.scan input).decoder.backlog_le
    omega

/-- If a pull completes no message, all of the input has been read. -/
theorem rest_pull_eq_nil {decoder : Decoder} {input : List UInt8}
    (dry : (decoder.pull input).event? = none) : (decoder.pull input).rest = [] := by
  unfold pull at dry ⊢
  split at dry
  · cases dry
  · rename_i next equation
    exact rest_scan_eq_nil dry

/-- The pulls that use up the input. Each but the last one completes a message. -/
def pulls (decoder : Decoder) (input : List UInt8) : List Pull :=
  match _found : (decoder.pull input).event? with
  | none => [decoder.pull input]
  | some _ =>
    decoder.pull input :: (decoder.pull input).decoder.pulls (decoder.pull input).rest
termination_by 5 * input.length + decoder.backlog
decreasing_by exact pull_decreases _found

/-- What is found in the input, and the decoder behind it. -/
def drain (decoder : Decoder) (input : List UInt8) : List Event × Decoder :=
  match _found : (decoder.pull input).event? with
  | none => ([], (decoder.pull input).decoder)
  | some event =>
    let (later, final) := (decoder.pull input).decoder.drain (decoder.pull input).rest
    (event :: later, final)
termination_by 5 * input.length + decoder.backlog
decreasing_by exact pull_decreases _found

/-- The messages in the input. -/
def messages (decoder : Decoder) (input : List UInt8) : List Message :=
  (decoder.drain input).1.map (·.message)

/-- Draining finds what the pulls find. -/
theorem drain_fst (decoder : Decoder) (input : List UInt8) :
    (decoder.drain input).1 = (decoder.pulls input).filterMap (·.event?) := by
  fun_induction drain decoder input with
  | case1 decoder input dry =>
    unfold pulls
    split
    · simp [dry]
    · simp_all
  | case2 decoder input event completed later final equation ih =>
    unfold pulls
    split
    · simp_all
    · simp [completed, ← ih, equation]

end Decoder

end MidiTransport.Stream
