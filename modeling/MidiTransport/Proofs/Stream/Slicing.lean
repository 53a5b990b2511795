import MidiTransport.Proofs.Stream.Feeding

/-!
# Pulling from slices of an input

An input may arrive in slices of any lengths, and a caller pulls from each of them until it has
run dry. Where the slices end cannot be observed: what can be read after every event, and the
decoder behind all of them, are those of the joined input (`Decoder.pullsInTurn_eq_pulls`). A
byte that a pull has held back is acted on by the next one, whichever slice that one reads.
-/

namespace MidiTransport.Stream

/-- What can be read right after an event: the event with its message, and all else that the
decoder shows. A pull that runs dry is no event. -/
def Pull.shown? (pull : Pull) : Option (Event × Decoder) := pull.event?.map (·, pull.decoder)

namespace Decoder

/-- The decoder behind pulls, the last of which it comes from. -/
def behind (decoder : Decoder) (pulls : List Pull) : Decoder :=
  (pulls.getLast?.map (·.decoder)).getD decoder

/-- Pull from slices one after the other, from each until it has run dry. -/
def pullsInTurn (decoder : Decoder) : List (List UInt8) → List Pull
  | [] => []
  | slice :: slices =>
    decoder.pulls slice ++ (decoder.behind (decoder.pulls slice)).pullsInTurn slices

variable {decoder : Decoder} {input : List UInt8}

/-! ## The pulls of one input -/

theorem pulls_of_none (dry : (decoder.pull input).event? = none) :
    decoder.pulls input = [decoder.pull input] := by
  rw [pulls]
  split
  · rfl
  · simp_all

theorem pulls_of_some {event : Event} (found : (decoder.pull input).event? = some event) :
    decoder.pulls input =
      decoder.pull input :: (decoder.pull input).decoder.pulls (decoder.pull input).rest := by
  rw [pulls.eq_def decoder input]
  split
  · simp_all
  · rfl

/-- The first pull decides all. -/
theorem pulls_congr {other : Decoder} {others : List UInt8}
    (same : decoder.pull input = other.pull others) : decoder.pulls input = other.pulls others := by
  cases found : (other.pull others).event? with
  | none => rw [pulls_of_none (same ▸ found), pulls_of_none found, same]
  | some event =>
    have also : (decoder.pull input).event? = some event := same ▸ found
    rw [pulls_of_some also, pulls_of_some found, same]

/-- There is always one pull. -/
theorem pulls_ne_nil (decoder : Decoder) (input : List UInt8) : decoder.pulls input ≠ [] := by
  rw [pulls]
  split <;> simp

theorem behind_append (decoder : Decoder) (front back : List Pull) :
    decoder.behind (front ++ back) = (decoder.behind front).behind back := by
  simp only [behind, List.getLast?_append]
  cases back.getLast? <;> rfl

theorem behind_cons (pull : Pull) (pulls : List Pull) :
    decoder.behind (pull :: pulls) = pull.decoder.behind pulls :=
  decoder.behind_append [pull] pulls

/-- Pulls decide about the decoder behind them. -/
theorem behind_congr {other : Decoder} {pulls : List Pull} (nonempty : pulls ≠ []) :
    decoder.behind pulls = other.behind pulls := by
  simp [behind, List.getLast?_eq_some_getLast nonempty]

/-- A decoder that has run dry holds nothing back. -/
theorem held_behind_pulls (decoder : Decoder) (input : List UInt8) :
    (decoder.behind (decoder.pulls input)).held = none := by
  fun_induction pulls decoder input with
  | case1 decoder input dry => exact held_pull_of_none dry
  | case2 decoder input event found ih => rwa [behind_cons]

/-! ## Joined inputs -/

/-- The pull that runs dry in front of further input is no event. -/
theorem events_pulls_append (decoder : Decoder) (front back : List UInt8) :
    (decoder.pulls (front ++ back)).filterMap (·.shown?) =
      (decoder.pulls front).filterMap (·.shown?) ++
        ((decoder.behind (decoder.pulls front)).pulls back).filterMap (·.shown?) := by
  fun_induction pulls decoder front with
  | case1 decoder front dry =>
    have silent : (decoder.pull front).shown? = none := by simp [Pull.shown?, dry]
    rw [pulls_congr (pull_append_of_none dry)]
    simp only [List.filterMap_cons, silent, List.filterMap_nil, List.nil_append]
    rfl
  | case2 decoder front event found ih =>
    have same : decoder.pull (front ++ back) =
        { decoder.pull front with rest := (decoder.pull front).rest ++ back } :=
      pull_append_of_some found
    have also : (decoder.pull (front ++ back)).event? = some event := by rw [same, found]
    have heard : (decoder.pull (front ++ back)).shown? = (decoder.pull front).shown? := by
      rw [same]
      rfl
    rw [pulls_of_some also, behind_cons, List.filterMap_cons, List.filterMap_cons, heard, same, ih]
    split <;> rfl

/-- A decoder goes on with further input as if it had not stopped in front of it. -/
theorem behind_pulls_append (decoder : Decoder) (front back : List UInt8) :
    decoder.behind (decoder.pulls (front ++ back)) =
      (decoder.behind (decoder.pulls front)).behind
        ((decoder.behind (decoder.pulls front)).pulls back) := by
  fun_induction pulls decoder front with
  | case1 decoder front dry =>
    rw [pulls_congr (pull_append_of_none dry)]
    exact behind_congr (pulls_ne_nil _ _)
  | case2 decoder front event found ih =>
    have same : decoder.pull (front ++ back) =
        { decoder.pull front with rest := (decoder.pull front).rest ++ back } :=
      pull_append_of_some found
    have also : (decoder.pull (front ++ back)).event? = some event := by rw [same, found]
    rw [pulls_of_some also, behind_cons, behind_cons, same, ih]

/-! ## Slices -/

theorem pulls_nil (clear : decoder.held = none) : decoder.pulls [] = [⟨decoder, none, []⟩] := by
  have idle : decoder.pull [] = ⟨decoder, none, []⟩ := pull_of_clear clear
  rw [pulls_of_none (by rw [idle]), idle]

/-- The same messages are found however an input has been sliced. -/
theorem events_pullsInTurn (clear : decoder.held = none) (slices : List (List UInt8)) :
    (decoder.pullsInTurn slices).filterMap (·.shown?) =
      (decoder.pulls slices.flatten).filterMap (·.shown?) := by
  induction slices generalizing decoder with
  | nil =>
    rw [List.flatten_nil, pulls_nil clear]
    rfl
  | cons slice slices ih =>
    rw [pullsInTurn, List.filterMap_append, ih (held_behind_pulls decoder slice),
      List.flatten_cons, events_pulls_append]

/-- The same decoder is left however an input has been sliced. -/
theorem behind_pullsInTurn (clear : decoder.held = none) (slices : List (List UInt8)) :
    decoder.behind (decoder.pullsInTurn slices) =
      decoder.behind (decoder.pulls slices.flatten) := by
  induction slices generalizing decoder with
  | nil =>
    rw [List.flatten_nil, pulls_nil clear]
    rfl
  | cons slice slices ih =>
    rw [pullsInTurn, behind_append, ih (held_behind_pulls decoder slice), List.flatten_cons,
      behind_pulls_append]

/-- The slices of an input bring the events of the joined input, with the same to be read after
each of them, and lead to the same decoder: it has the same running status, and whatever is read
next brings the same. Wherever a pull runs dry, the slice has been read to its end and no byte
is held back. -/
theorem pullsInTurn_eq_pulls (clear : decoder.held = none) (slices : List (List UInt8)) :
    (decoder.pullsInTurn slices).filterMap (·.shown?) =
        (decoder.pulls slices.flatten).filterMap (·.shown?) ∧
      decoder.behind (decoder.pullsInTurn slices) =
        decoder.behind (decoder.pulls slices.flatten) ∧
      ∀ (other : Decoder) (slice : List UInt8), (other.pull slice).event? = none →
        (other.pull slice).rest = [] ∧ (other.pull slice).decoder.held = none := by
  refine ⟨events_pullsInTurn clear slices, behind_pullsInTurn clear slices, ?_⟩
  intro other slice dry
  exact ⟨rest_pull_eq_nil dry, held_pull_of_none dry⟩

/-- A decoder that has collected a whole piece of a system exclusive message. -/
def atFullPiece : Decoder :=
  (initial true).behind ((initial true).pulls (sysExStart :: List.replicate 127 0x11))

/-- The byte behind the piece and the status byte that ends the message are both held back at
the end of a slice. -/
theorem pullsInTurn_eq_pulls_heldBack :
    atFullPiece.held = none ∧
      ((atFullPiece.pullsInTurn [[0x12], [], [0x90], [0x40, 0x41, 0x42], [0x43]]).filterMap
          (·.shown?)).map Prod.fst =
        [.sysExChunk ⟨sysExStart :: List.replicate 127 0x11, .first, true, false⟩,
          .sysExMessage ⟨[0x12], .first, false, true⟩, .channel ⟨0x90, 0x40, 0x41, .first⟩,
          .channel ⟨0x90, 0x42, 0x43, .first⟩] ∧
      (atFullPiece.behind (atFullPiece.pullsInTurn
        [[0x12], [], [0x90], [0x40, 0x41, 0x42], [0x43]])).running = some 0x90 := by
  have clear : atFullPiece.held = none := by decide +kernel
  obtain ⟨events, final, -⟩ :=
    pullsInTurn_eq_pulls clear [[0x12], [], [0x90], [0x40, 0x41, 0x42], [0x43]]
  refine ⟨clear, ?_, ?_⟩
  · rw [events]
    decide +kernel
  · rw [final]
    decide +kernel

end Decoder

end MidiTransport.Stream
