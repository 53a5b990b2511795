import MidiTransport.Usb.Drain

/-!
# Draining packets in parts

A decoder finds the same messages whether packets are drained together or in parts
(`Decoder.drain_append`), and a packet that is held back acts as if it stood in front of the
others (`Decoder.drain_of_held`). So the messages in all packets follow from what each of them
brings about until it is used up (`Decoder.Settles`).
-/

namespace MidiTransport.Usb

/-- Different cables have different indices. -/
theorem index_ne_of_ne {cable other : Cable} (apart : other ≠ cable) :
    cable.index.val ≠ other.index.val := by
  intro same
  exact apart (congrArg Cable.mk (Fin.ext same.symm))

namespace Decoder

open SysEx (Assembly)

variable {decoder : Decoder} {packet : EventPacket} {input front : List EventPacket} {cable : Cable}

/-! ## Assemblies -/

/-- What one cable assembles does not change what another one does. -/
theorem assembly_setAssembly_of_ne {other : Cable} (elsewhere : other ≠ cable)
    (assembly : Assembly) :
    (decoder.setAssembly cable assembly).assembly other = decoder.assembly other :=
  Vector.getElem_set_ne cable.index.isLt other.index.isLt (index_ne_of_ne elsewhere)

theorem announceChunk_eq {assembly : Assembly} (own : decoder.assembly cable = assembly) :
    decoder.announceChunk cable =
      ({ decoder with active := cable }, some (.sysExChunk (assembly.piece cable))) := by
  subst own
  rfl

theorem announceEnd_eq {assembly : Assembly} (own : decoder.assembly cable = assembly) :
    decoder.announceEnd cable =
      ({ decoder with active := cable }, some (.sysExMessage (assembly.piece cable))) := by
  subst own
  rfl

/-! ## Packets that bring no message -/

theorem held_takeSysEx_of_none {count : Nat} {ends : Bool} (clear : decoder.held = none)
    (dry : (decoder.takeSysEx packet count ends).2 = none) :
    (decoder.takeSysEx packet count ends).1.held = none := by
  unfold takeSysEx at *
  dsimp only at *
  split at dry
  · rename_i receiving
    rw [if_pos receiving]
    split at dry
    · rename_i room
      rw [if_pos room]
      split at dry
      · cases dry
      · rename_i further
        rw [if_neg further]
        exact clear
    · cases dry
  · rename_i closed
    rw [if_neg closed]
    exact clear

/-- A packet that completes no message is used up. -/
theorem held_feed_of_none (clear : decoder.held = none) (dry : (decoder.feed packet).2 = none) :
    (decoder.feed packet).1.held = none := by
  unfold feed takeSingleByte at *
  grind [held_takeSysEx_of_none, announceCommon, announceChannel]

/-- A scan without a message ends with no packet held back. -/
theorem held_scan_of_none (clear : decoder.held = none)
    (dry : (decoder.scan input).event? = none) : (decoder.scan input).decoder.held = none := by
  induction input generalizing decoder with
  | nil => exact clear
  | cons packet rest ih =>
    have kept (quiet : (decoder.feed packet).2 = none) := held_feed_of_none clear quiet
    unfold scan at dry ⊢
    split at dry
    · rename_i zero
      rwa [if_pos zero]
    · rename_i nonzero
      rw [if_neg nonzero]
      split at dry
      · cases dry
      · rename_i next equation
        rw [equation] at kept
        exact ih (kept rfl) dry

/-- If the packet held back brings no message, it is not held back again. -/
theorem held_resume_of_none (dry : decoder.resume.2 = none) : decoder.resume.1.held = none := by
  unfold resume at dry ⊢
  split
  · assumption
  · rename_i packet held
    rw [held] at dry
    exact held_feed_of_none rfl dry

/-- Nothing is held back when no message is found. -/
theorem held_pull_of_none (dry : (decoder.pull input).event? = none) :
    (decoder.pull input).decoder.held = none := by
  have clear (quiet : decoder.resume.2 = none) := held_resume_of_none quiet
  unfold pull at dry ⊢
  split at dry
  · cases dry
  · rename_i next equation
    rw [equation] at clear
    exact held_scan_of_none (clear rfl) dry

/-! ## Pulls -/

theorem pull_of_clear (clear : decoder.held = none) : decoder.pull input = decoder.scan input := by
  simp [pull, resume, clear]

/-- A packet held back is read as if it stood in front of the input. -/
theorem pull_of_held (held : decoder.held = some packet) (nonzero : packet ≠ .zero) :
    decoder.pull input = { decoder with held := none }.pull (packet :: input) := by
  have clear : { decoder with held := none }.held = none := rfl
  rw [pull_of_clear clear]
  simp only [pull, resume, held, scan, if_neg nonzero]

theorem scan_quiet {next : Decoder} (nonzero : packet ≠ .zero)
    (fed : decoder.feed packet = (next, none)) :
    decoder.scan (packet :: input) = next.scan input := by
  rw [scan, if_neg nonzero, fed]

/-- Further packets do not matter to a pull that leaves something to be found. -/
theorem scan_append_of_more (more : (decoder.scan front).more = true) (back : List EventPacket) :
    decoder.scan (front ++ back) =
      { decoder.scan front with rest := (decoder.scan front).rest ++ back } := by
  induction front generalizing decoder with
  | nil => cases more
  | cons packet rest ih =>
    rw [List.cons_append]
    unfold scan at more ⊢
    split at more
    · rename_i zero
      rw [if_pos zero, if_pos zero]
    · rename_i nonzero
      rw [if_neg nonzero, if_neg nonzero]
      split at more
      · rfl
      · exact ih more

/-- A pull that leaves nothing to be found goes on with further packets, or stops in front of
them at a packet of zeros. -/
theorem scan_append_of_dry (dry : (decoder.scan front).more = false) (back : List EventPacket) :
    decoder.scan (front ++ back) = (decoder.scan front).decoder.scan back ∨
      decoder.scan (front ++ back) = ⟨(decoder.scan front).decoder, none, back⟩ := by
  induction front generalizing decoder with
  | nil => exact .inl rfl
  | cons packet rest ih =>
    by_cases zero : packet = .zero
    · rw [scan, if_pos zero] at dry
      obtain rfl : rest = [] := by simpa [Pull.more] using dry
      refine .inr ?_
      simp [scan, zero]
    · generalize fed : decoder.feed packet = outcome
      obtain ⟨next, found?⟩ := outcome
      cases found? with
      | some event => simp [scan, zero, fed, Pull.more] at dry
      | none =>
        rw [scan_quiet zero fed] at dry
        rw [List.cons_append, scan_quiet zero fed, scan_quiet zero fed]
        exact ih dry

/-- A pull that has found a message or left input leaves more input alone. -/
theorem pull_append_of_more (more : (decoder.pull front).more = true) (back : List EventPacket) :
    decoder.pull (front ++ back) =
      { decoder.pull front with rest := (decoder.pull front).rest ++ back } := by
  unfold pull at more ⊢
  split at more
  · rfl
  · exact scan_append_of_more more back

/-- A pull that has run out of input goes on with more of it, unless it has stopped at a packet of
zeros. -/
theorem pull_append_of_dry (dry : (decoder.pull front).more = false) (back : List EventPacket) :
    decoder.pull (front ++ back) = (decoder.pull front).decoder.scan back ∨
      decoder.pull (front ++ back) = ⟨(decoder.pull front).decoder, none, back⟩ := by
  unfold pull at dry ⊢
  split at dry
  · simp [Pull.more] at dry
  · exact scan_append_of_dry dry back

/-! ## Draining -/

/-- A drain goes on behind a pull that has found a message or left input. -/
theorem drain_of_more (more : (decoder.pull input).more = true) :
    decoder.drain input =
      ((decoder.pull input).event?.toList ++
          ((decoder.pull input).decoder.drain (decoder.pull input).rest).1,
        ((decoder.pull input).decoder.drain (decoder.pull input).rest).2) := by
  rw [drain, dif_pos more]

theorem drain_of_dry (dry : (decoder.pull input).more = false) :
    decoder.drain input = ([], (decoder.pull input).decoder) := by
  rw [drain, dif_neg (by simp [dry])]

/-- The first pull decides all. -/
theorem drain_congr {other : Decoder} {others : List EventPacket}
    (same : decoder.pull input = other.pull others) : decoder.drain input = other.drain others := by
  cases more : (other.pull others).more with
  | false => rw [drain_of_dry (same ▸ more), drain_of_dry more, same]
  | true => rw [drain_of_more (same ▸ more), drain_of_more more, same]

theorem event?_of_dry (dry : (decoder.pull input).more = false) :
    (decoder.pull input).event? = none := by
  simp_all [Pull.more]

/-- A drained decoder holds nothing back. -/
theorem held_drain (decoder : Decoder) (input : List EventPacket) :
    (decoder.drain input).2.held = none := by
  fun_induction drain decoder input with
  | case1 decoder input more later final equation ih => rwa [equation] at ih
  | case2 decoder input dry =>
    exact held_pull_of_none (event?_of_dry (by simpa using dry))

/-- Without input and a packet held back there is nothing to drain. -/
theorem drain_nil (clear : decoder.held = none) : decoder.drain [] = ([], decoder) := by
  have same : decoder.pull [] = ⟨decoder, none, []⟩ := pull_of_clear clear
  rw [drain_of_dry (by rw [same]; rfl), same]

/-- A packet held back is the next packet of the input. -/
theorem drain_of_held (held : decoder.held = some packet) (nonzero : packet ≠ .zero) :
    decoder.drain input = { decoder with held := none }.drain (packet :: input) :=
  drain_congr (pull_of_held held nonzero)

/-- A pull that has stopped at a packet of zeros is followed by another one. -/
theorem drain_of_stopped {next : Decoder} {rest : List EventPacket} (clear : next.held = none)
    (stopped : decoder.pull input = ⟨next, none, rest⟩) :
    decoder.drain input = next.drain rest := by
  cases rest with
  | nil => rw [drain_of_dry (by rw [stopped]; rfl), stopped, drain_nil clear]
  | cons =>
    rw [drain_of_more (by rw [stopped]; rfl), stopped]
    rfl

/-- More input behind what a pull has left changes nothing about it. -/
theorem more_of_longer {pull : Pull} (more : pull.more = true) (back : List EventPacket) :
    Pull.more { pull with rest := pull.rest ++ back } = true := by
  rw [Pull.more, Bool.or_eq_true] at more ⊢
  rcases more with found | left
  · exact .inl found
  · exact .inr (by simp_all)

/-- Packets in two parts are drained like the joined packets. -/
theorem drain_append (decoder : Decoder) (front back : List EventPacket) :
    decoder.drain (front ++ back) =
      ((decoder.drain front).1 ++ ((decoder.drain front).2.drain back).1,
        ((decoder.drain front).2.drain back).2) := by
  fun_induction drain decoder front with
  | case1 decoder front more later final equation ih =>
    have same := pull_append_of_more more back
    have still : (decoder.pull (front ++ back)).more = true := by
      rw [same]
      exact more_of_longer more back
    rw [equation] at ih
    rw [drain_of_more still, same, ih, List.append_assoc]
  | case2 decoder front dry =>
    have dry : (decoder.pull front).more = false := by simpa using dry
    have clear := held_pull_of_none (event?_of_dry dry)
    rcases pull_append_of_dry dry back with same | same
    · rw [drain_congr (same.trans (pull_of_clear clear).symm)]
      rfl
    · rw [drain_of_stopped clear same]
      rfl

theorem messages_append (decoder : Decoder) (front back : List EventPacket) :
    decoder.messages (front ++ back) =
      decoder.messages front ++ (decoder.drain front).2.messages back := by
  simp [messages, drain_append]

/-- What a packet brings about, with the messages that it still brings about while it is held
back. -/
theorem drain_packet (clear : decoder.held = none) (nonzero : packet ≠ .zero) :
    decoder.drain [packet] =
      ((decoder.feed packet).2.toList ++ ((decoder.feed packet).1.drain []).1,
        ((decoder.feed packet).1.drain []).2) := by
  have start : decoder.pull [packet] = decoder.scan [packet] := pull_of_clear clear
  rw [scan, if_neg nonzero] at start
  split at start
  · rename_i next event equation
    rw [drain_of_more (by rw [start]; rfl), start, equation]
  · rename_i next equation
    have kept (quiet : (decoder.feed packet).2 = none) := held_feed_of_none clear quiet
    rw [equation] at kept
    rw [drain_of_dry (by rw [start]; rfl), start, equation, drain_nil (kept rfl)]
    rfl

/-- A packet that is held back is read again behind the message that it brings about. -/
theorem drain_of_refused {next : Decoder} {event : Event} (clear : decoder.held = none)
    (nonzero : packet ≠ .zero) (still : next.held = none)
    (refused : decoder.feed packet = ({ next with held := some packet }, some event)) :
    decoder.drain [packet] =
      (event :: (next.drain [packet]).1, (next.drain [packet]).2) := by
  have same : { next with held := none } = next := by rw [← still]
  have again : { next with held := some packet }.drain [] = next.drain [packet] := by
    rw [drain_of_held rfl nonzero, same]
  rw [drain_packet clear nonzero, refused, again]
  rfl

/-! ## Single packets -/

/-- Acting on a packet, again for as long as it is held back, completes these messages. -/
inductive Settles (packet : EventPacket) : Decoder → List Event → Decoder → Prop where
  | done {decoder next : Decoder} {event? : Option Event}
      (fed : decoder.feed packet = (next, event?)) (cleared : next.held = none) :
      Settles packet decoder event?.toList next
  | again {decoder next final : Decoder} {event : Event} {events : List Event}
      (fed : decoder.feed packet = (next, some event)) (held : next.held = some packet)
      (later : Settles packet { next with held := none } events final) :
      Settles packet decoder (event :: events) final

/-- Either no packet is held back, or the one that found no room. -/
theorem held_takeSysEx {count : Nat} {ends : Bool} (clear : decoder.held = none) :
    (decoder.takeSysEx packet count ends).1.held = none ∨
      (decoder.takeSysEx packet count ends).1.held = some packet := by
  simp only [takeSysEx]
  split
  · split
    · split
      · exact .inl clear
      · exact .inl clear
    · exact .inr rfl
  · exact .inl clear

/-- The only packet that acting on a packet holds back is that packet. -/
theorem held_feed (clear : decoder.held = none) (packet : EventPacket) :
    (decoder.feed packet).1.held = none ∨ (decoder.feed packet).1.held = some packet := by
  unfold feed takeSingleByte
  grind [held_takeSysEx, announceCommon, announceChannel]

/-- A packet is not held back forever. -/
theorem exists_settles (clear : decoder.held = none) (packet : EventPacket) :
    ∃ events final, Settles packet decoder events final := by
  induction left : decoder.packetBacklog packet using Nat.strongRecOn generalizing decoder with
  | ind left ih =>
    have lowered := decoder.backlog_feed_lt packet clear
    have used : (decoder.feed packet).2 = none → (decoder.feed packet).1.held = none :=
      held_feed_of_none clear
    have either := held_feed clear packet
    generalize fed : decoder.feed packet = outcome at lowered used either
    obtain ⟨next, event?⟩ := outcome
    dsimp only at lowered used either
    rcases either with cleared | held
    · exact ⟨_, _, .done fed cleared⟩
    · cases event? with
      | none => exact absurd ((used rfl).symm.trans held) (by simp)
      | some event =>
        rw [backlog, held] at lowered
        have taken : { next with held := none }.held = none := rfl
        obtain ⟨events, final, later⟩ := ih _ (left ▸ lowered) taken rfl
        exact ⟨_, _, .again fed held later⟩

/-- A packet of zeros stops a pull, and changes nothing otherwise. -/
theorem drain_zero (clear : decoder.held = none) : decoder.drain [.zero] = ([], decoder) := by
  have stopped : decoder.pull [.zero] = ⟨decoder, none, []⟩ := pull_of_clear clear
  rw [drain_of_stopped clear stopped, drain_nil clear]

section Settles

variable {final : Decoder} {events : List Event}

theorem Settles.cleared (settles : Settles packet decoder events final) :
    final.held = none := by
  induction settles with
  | done fed cleared => exact cleared
  | again fed held later ih => exact ih

/-- Draining one packet is to let it settle. -/
theorem Settles.drain_eq (settles : Settles packet decoder events final)
    (clear : decoder.held = none) : decoder.drain [packet] = (events, final) := by
  by_cases zero : packet = .zero
  · subst zero
    have idle (decoder : Decoder) : decoder.feed .zero = (decoder, none) := rfl
    cases settles with
    | done fed cleared =>
      cases (idle decoder).symm.trans fed
      exact drain_zero clear
    | again fed held later => cases (idle decoder).symm.trans fed
  · induction settles with
    | done fed cleared =>
      rw [drain_packet clear zero, fed, drain_nil cleared, List.append_nil]
    | again fed held later ih =>
      rw [drain_packet clear zero, fed, drain_of_held held zero, ih rfl]
      rfl

/-- The messages of a packet come before those of all others. -/
theorem Settles.drain_cons (settles : Settles packet decoder events final)
    (clear : decoder.held = none) (input : List EventPacket) :
    decoder.drain (packet :: input) =
      (events ++ (final.drain input).1, (final.drain input).2) := by
  have parts := decoder.drain_append [packet] input
  rwa [settles.drain_eq clear] at parts

end Settles

end Decoder

end MidiTransport.Usb
