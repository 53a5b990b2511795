import MidiTransport.Stream.Drain

/-!
# Draining an input bit by bit

A byte held back counts as the next byte of the input (`Decoder.drain_of_held`), and
draining a joined input is draining its parts one after the other
(`Decoder.drain_append`). So the messages in an input follow from what single bytes do
(`Decoder.drain_cons`), or from what each of them brings about until it is used up
(`Decoder.Settles`).
-/

namespace MidiTransport.Stream.Decoder

variable {decoder : Decoder} {byte : UInt8} {input : List UInt8}

/-! ## Bytes held back -/

theorem held_takeData_of_none (clear : decoder.held = none)
    (dry : (decoder.takeData byte).2 = none) : (decoder.takeData byte).1.held = none := by
  unfold takeData at *
  split
  · exact clear
  · split
    · split
      · exact clear
      · simp_all [handOut]
    · unfold takeChannelData at *
      split
      · exact clear
      · dsimp only
        split <;> exact clear
    · unfold takeCommonData at *
      split
      · exact clear
      · dsimp only
        split <;> exact clear

/-- A status byte inside a system exclusive message always completes a piece. -/
theorem closeSysEx_snd_ne_none (decoder : Decoder) (status : UInt8) :
    (decoder.closeSysEx status).2 ≠ none := by
  unfold closeSysEx handOut
  split
  · split <;> simp
  · simp

theorem held_takeStatus_of_none (clear : decoder.held = none)
    (dry : (decoder.takeStatus byte).2 = none) : (decoder.takeStatus byte).1.held = none := by
  unfold takeStatus at *
  split
  · rename_i receiving
    rw [if_pos receiving] at dry
    exact absurd dry (decoder.closeSysEx_snd_ne_none byte)
  · split
    · exact clear
    · exact clear
    · unfold openCommon
      dsimp only
      split <;> exact clear
    · exact clear

/-- A byte that completes no message is used up. -/
theorem held_feed_of_none (clear : decoder.held = none) (dry : (decoder.feed byte).2 = none) :
    (decoder.feed byte).1.held = none := by
  unfold feed at *
  split
  · rename_i data
    rw [data] at dry
    exact held_takeData_of_none clear dry
  · exact clear
  · exact held_takeStatus_of_none clear (by split at dry <;> simp_all)

/-- A scan without a message ends with no byte held back. -/
theorem held_scan_of_none (clear : decoder.held = none)
    (dry : (decoder.scan input).event? = none) : (decoder.scan input).decoder.held = none := by
  induction input generalizing decoder with
  | nil => exact clear
  | cons byte rest ih =>
    have kept (quiet : (decoder.feed byte).2 = none) := held_feed_of_none clear quiet
    unfold scan at dry ⊢
    split at dry
    · cases dry
    · rename_i next equation
      rw [equation] at kept
      exact ih (kept rfl) dry

/-- If the byte held back brings no message, it is not held back again. -/
theorem held_resume_of_none (dry : decoder.resume.2 = none) : decoder.resume.1.held = none := by
  unfold resume at dry ⊢
  split
  · assumption
  · rename_i byte held
    rw [held] at dry
    exact held_feed_of_none rfl dry

/-- Nothing is held back when an input has run dry. -/
theorem held_pull_of_none (dry : (decoder.pull input).event? = none) :
    (decoder.pull input).decoder.held = none := by
  have clear (quiet : decoder.resume.2 = none) := held_resume_of_none quiet
  unfold pull at dry ⊢
  split at dry
  · cases dry
  · rename_i next equation
    rw [equation] at clear
    exact held_scan_of_none (clear rfl) dry

/-! ## Pulls -/

/-- Without a byte held back a pull starts with the input. -/
theorem pull_of_clear (clear : decoder.held = none) : decoder.pull input = decoder.scan input := by
  simp [pull, resume, clear]

/-- A byte held back is read as if it stood in front of the input. -/
theorem pull_of_held (held : decoder.held = some byte) :
    decoder.pull input = { decoder with held := none }.pull (byte :: input) := by
  have clear : { decoder with held := none }.held = none := rfl
  rw [pull_of_clear clear]
  simp only [pull, resume, held, scan]

/-- A byte that completes a message ends the pull. -/
theorem pull_cons_of_some {next : Decoder} {event : Event} (clear : decoder.held = none)
    (fed : decoder.feed byte = (next, some event)) :
    decoder.pull (byte :: input) = ⟨next, some event, input⟩ := by
  rw [pull_of_clear clear, scan, fed]

/-- A byte that completes no message leaves that to the input behind it. -/
theorem pull_cons_of_none {next : Decoder} (clear : decoder.held = none)
    (fed : decoder.feed byte = (next, none)) :
    decoder.pull (byte :: input) = next.pull input := by
  have kept (dry : (decoder.feed byte).2 = none) := held_feed_of_none clear dry
  rw [fed] at kept
  rw [pull_of_clear clear, pull_of_clear (kept rfl), scan, fed]

/-- A pull that runs dry goes on with further input. -/
theorem scan_append_of_none {more : List UInt8} (dry : (decoder.scan input).event? = none) :
    decoder.scan (input ++ more) = (decoder.scan input).decoder.scan more := by
  induction input generalizing decoder with
  | nil => rfl
  | cons byte rest ih =>
    rw [List.cons_append]
    rw [scan] at dry
    rw [scan, scan.eq_2 decoder byte rest]
    split at dry
    · cases dry
    · rename_i next equation
      exact ih dry

/-- Further input does not matter to a pull that completes a message. -/
theorem scan_append_of_some {more : List UInt8} {event : Event}
    (found : (decoder.scan input).event? = some event) :
    decoder.scan (input ++ more) =
      { decoder.scan input with rest := (decoder.scan input).rest ++ more } := by
  induction input generalizing decoder with
  | nil => cases found
  | cons byte rest ih =>
    rw [List.cons_append]
    unfold scan at found ⊢
    split at found
    · rfl
    · rename_i next equation
      exact ih found

/-- A pull that runs out of input goes on with more of it. -/
theorem pull_append_of_none {more : List UInt8} (dry : (decoder.pull input).event? = none) :
    decoder.pull (input ++ more) = (decoder.pull input).decoder.pull more := by
  rw [pull_of_clear (held_pull_of_none dry)]
  unfold pull at dry ⊢
  split at dry
  · cases dry
  · exact scan_append_of_none dry

/-- A pull that finds a message leaves more input alone. -/
theorem pull_append_of_some {more : List UInt8} {event : Event}
    (found : (decoder.pull input).event? = some event) :
    decoder.pull (input ++ more) =
      { decoder.pull input with rest := (decoder.pull input).rest ++ more } := by
  unfold pull at found ⊢
  split at found
  · rfl
  · exact scan_append_of_some found

/-! ## Draining -/

theorem drain_of_none (dry : (decoder.pull input).event? = none) :
    decoder.drain input = ([], (decoder.pull input).decoder) := by
  unfold drain
  split
  · rfl
  · simp_all

theorem drain_of_some {event : Event} (found : (decoder.pull input).event? = some event) :
    decoder.drain input =
      (event :: ((decoder.pull input).decoder.drain (decoder.pull input).rest).1,
        ((decoder.pull input).decoder.drain (decoder.pull input).rest).2) := by
  conv => lhs; unfold drain
  split
  · simp_all
  · rename_i other equation
    cases equation.symm.trans found
    rfl

/-- The first pull decides all. -/
theorem drain_congr {other : Decoder} {others : List UInt8}
    (same : decoder.pull input = other.pull others) : decoder.drain input = other.drain others := by
  cases found : (other.pull others).event? with
  | none => rw [drain_of_none (same ▸ found), drain_of_none found, same]
  | some event =>
    have also : (decoder.pull input).event? = some event := same ▸ found
    rw [drain_of_some also, drain_of_some found, same]

/-- A drained decoder holds nothing back. -/
theorem held_drain (decoder : Decoder) (input : List UInt8) :
    (decoder.drain input).2.held = none := by
  fun_induction drain decoder input with
  | case1 decoder input dry => exact held_pull_of_none dry
  | case2 decoder input event found later final equation ih => rwa [equation] at ih

/-- A byte held back is the next byte of the input. -/
theorem drain_of_held (held : decoder.held = some byte) :
    decoder.drain input = { decoder with held := none }.drain (byte :: input) :=
  drain_congr (pull_of_held held)

/-- Without input and a byte held back there is nothing to drain. -/
theorem drain_nil (clear : decoder.held = none) : decoder.drain [] = ([], decoder) := by
  have same : decoder.pull [] = ⟨decoder, none, []⟩ := pull_of_clear clear
  rw [drain_of_none (by rw [same]), same]

/-- An input in two parts is drained like the joined input. -/
theorem drain_append (decoder : Decoder) (front back : List UInt8) :
    decoder.drain (front ++ back) =
      ((decoder.drain front).1 ++ ((decoder.drain front).2.drain back).1,
        ((decoder.drain front).2.drain back).2) := by
  fun_induction drain decoder front with
  | case1 decoder front dry =>
    rw [drain_congr (pull_append_of_none dry)]
    rfl
  | case2 decoder front event found later final equation ih =>
    have same : decoder.pull (front ++ back) =
        { decoder.pull front with rest := (decoder.pull front).rest ++ back } :=
      pull_append_of_some found
    rw [equation] at ih
    rw [drain_of_some (by rw [same]; exact found), same, ih]
    rfl

theorem messages_append (decoder : Decoder) (front back : List UInt8) :
    decoder.messages (front ++ back) =
      decoder.messages front ++ (decoder.drain front).2.messages back := by
  simp [messages, drain_append]

/-- The first byte of an input comes before all others. The decoder may still hold it
back while the others are drained. -/
theorem drain_cons (clear : decoder.held = none) :
    decoder.drain (byte :: input) =
      ((decoder.feed byte).2.toList ++ ((decoder.feed byte).1.drain input).1,
        ((decoder.feed byte).1.drain input).2) := by
  generalize fed : decoder.feed byte = outcome
  obtain ⟨next, event?⟩ := outcome
  cases event? with
  | none =>
    rw [drain_congr (pull_cons_of_none clear fed)]
    rfl
  | some event =>
    have start : decoder.pull (byte :: input) = ⟨next, some event, input⟩ :=
      pull_cons_of_some clear fed
    rw [drain_of_some (by rw [start]), start]
    rfl

/-! ## Single bytes -/

/-- Acting on a byte, again for as long as it is held back, completes these messages. -/
inductive Settles (byte : UInt8) : Decoder → List Event → Decoder → Prop where
  | done {decoder next : Decoder} {event? : Option Event}
      (fed : decoder.feed byte = (next, event?)) (cleared : next.held = none) :
      Settles byte decoder event?.toList next
  | again {decoder next final : Decoder} {event : Event} {events : List Event}
      (fed : decoder.feed byte = (next, some event)) (held : next.held = some byte)
      (later : Settles byte { next with held := none } events final) :
      Settles byte decoder (event :: events) final

/-- The byte for which a piece is handed out is held back. -/
theorem held_handOut (decoder : Decoder) (byte : UInt8) :
    (decoder.handOut byte).1.held = some byte :=
  rfl

/-- A status that ends a message is held back, or no byte is. -/
theorem held_closeSysEx (clear : decoder.held = none) :
    (decoder.closeSysEx byte).1.held = none ∨ (decoder.closeSysEx byte).1.held = some byte := by
  unfold closeSysEx
  split
  · split
    · exact .inl clear
    · exact .inr (held_handOut decoder byte)
  · exact .inr rfl

/-- The only byte that acting on a byte holds back is that byte. -/
theorem held_feed (clear : decoder.held = none) (byte : UInt8) :
    (decoder.feed byte).1.held = none ∨ (decoder.feed byte).1.held = some byte := by
  unfold feed
  split
  · unfold takeData takeChannelData takeCommonData
    grind [held_handOut]
  · exact .inl clear
  · unfold takeStatus openCommon
    grind [held_closeSysEx]

/-- A byte is not held back forever. -/
theorem exists_settles (clear : decoder.held = none) (byte : UInt8) :
    ∃ events final, Settles byte decoder events final := by
  induction left : decoder.sysExBacklog using Nat.strongRecOn generalizing decoder with
  | ind left ih =>
    have lowered := decoder.backlog_feed_lt byte clear
    have used : (decoder.feed byte).2 = none → (decoder.feed byte).1.held = none :=
      held_feed_of_none clear
    have either := held_feed clear byte
    generalize fed : decoder.feed byte = outcome at lowered used either
    obtain ⟨next, event?⟩ := outcome
    dsimp only at lowered used either
    rcases either with cleared | held
    · exact ⟨_, _, .done fed cleared⟩
    · cases event? with
      | none => exact absurd ((used rfl).symm.trans held) (by simp)
      | some event =>
        rw [backlog, held] at lowered
        have taken : { next with held := none }.held = none := rfl
        obtain ⟨events, final, later⟩ := ih _ (left ▸ lowered) taken rfl
        exact ⟨_, _, .again fed held later⟩

/-- A real-time byte is a message, and all else stays as it was. -/
theorem settles_realTime (loud : isRealTime byte = true) (clear : decoder.held = none) :
    Settles byte decoder [.realTime ⟨byte, .first⟩]
      { decoder with realTime := ⟨byte, .first⟩ } := by
  have kind : ByteClass.of byte = .realTime := by simpa [isRealTime] using loud
  have fed : decoder.feed byte =
      ({ decoder with realTime := ⟨byte, .first⟩ }, some (.realTime ⟨byte, .first⟩)) := by
    simp [feed, kind]
  exact .done fed clear

section Settles

variable {final : Decoder} {events : List Event}

theorem Settles.cleared (settles : Settles byte decoder events final) : final.held = none := by
  induction settles with
  | done fed cleared => exact cleared
  | again fed held later ih => exact ih

/-- Draining one byte is to let it settle. -/
theorem Settles.drain_eq (settles : Settles byte decoder events final)
    (clear : decoder.held = none) : decoder.drain [byte] = (events, final) := by
  induction settles with
  | done fed cleared =>
    rw [Decoder.drain_cons clear, fed, drain_nil cleared, List.append_nil]
  | again fed held later ih =>
    rw [Decoder.drain_cons clear, fed, drain_of_held held, ih rfl]
    rfl

/-- The messages of a byte come before those of all others. -/
theorem Settles.drain_cons (settles : Settles byte decoder events final)
    (clear : decoder.held = none) (input : List UInt8) :
    decoder.drain (byte :: input) = (events ++ (final.drain input).1, (final.drain input).2) := by
  have parts := decoder.drain_append [byte] input
  rwa [settles.drain_eq clear] at parts

end Settles

end MidiTransport.Stream.Decoder
