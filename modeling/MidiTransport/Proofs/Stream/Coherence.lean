import MidiTransport.Proofs.Stream.Feeding
import MidiTransport.Proofs.SysEx.Buffer

/-!
# How the parts of a decoder's state fit together

Two parts of a decoder's state tell that a system exclusive message is open, its assembly and the
status that the next data byte belongs to, and they are changed in different places. In every state
that pulls lead to they agree, no message under way has lost its status, and a piece is handed out
only while a byte is held back that goes on with its message (`Decoder.Sound.run`). So a piece is
never empty, and the byte held back starts the next one (`Decoder.Sound.announced_pull`).
-/

namespace MidiTransport.Stream

open SysEx (Assembly)

/-- The byte goes into a system exclusive message that is open. -/
def GoesOn (byte : UInt8) : Prop := isData byte = true ∨ byte = sysExEnd

/-- A pull announces only pieces with at least one byte. Behind a piece that is not the last one it
has held back a byte that has room, and with which the next pull starts the next piece. Whether a
piece is the last one is told by the event as it is by the piece. -/
structure Pull.Announced (pull : Pull) : Prop where
  filled : ∀ piece, pull.event?.map (·.message) = some (.sysEx piece) →
    piece.data ≠ [] ∧ piece.length ≤ Assembly.capacity
  continued : ∀ piece, pull.event? = some (.sysExChunk piece) →
    piece.last = false ∧ ∃ byte, pull.decoder.held = some byte ∧ GoesOn byte ∧
      pull.decoder.sysEx.hasRoom 1 = true ∧ pull.decoder.resume.1.sysEx.data = [byte]
  ended : ∀ piece, pull.event? = some (.sysExMessage piece) → piece.last = true

namespace Decoder

/-! ## Sound states -/

/-- The first part of a message that needs two data bytes has been stored under the status that the
next data byte belongs to. -/
def KeepsStatus (decoder : Decoder) : Prop :=
  ∃ status, decoder.current = some status ∧
    (status = 0xF2 ∧ decoder.common.header = status ∨
      isChannelStatus status = true ∧ hasTwoDataBytes status = true ∧
        decoder.channel.header = status)

/-- The parts of the state agree, whatever byte is to be acted on next. -/
structure Consistent (decoder : Decoder) : Prop where
  receiving_iff : decoder.sysEx.receiving = true ↔ decoder.current = some sysExStart
  running_of_receiving : decoder.sysEx.receiving = true → decoder.running = none
  running : ∀ status, decoder.running = some status → isChannelStatus status = true
  current : ∀ status, decoder.current = some status →
    status = sysExStart ∨ status ∈ [0xF1, 0xF2, 0xF3] ∨ decoder.running = some status
  underWay : decoder.awaitsSecond = true → decoder.KeepsStatus
  orderly : decoder.sysEx.Orderly

/-- A state between two pulls: whatever has been handed out, the byte held back goes on with it. -/
structure Sound (decoder : Decoder) : Prop extends Consistent decoder where
  goesOn : decoder.sysEx.handedOut = true → ∃ byte, decoder.held = some byte ∧ GoesOn byte

/-- The outcome of acting on a byte is a sound state. If a piece is announced, it has at least one
byte and can be read in this state. It has been handed out if its message goes on, and the message
is closed if it does not. -/
structure Proper (outcome : Decoder × Option Event) : Prop where
  sound : outcome.1.Sound
  chunk : ∀ piece, outcome.2 = some (.sysExChunk piece) → piece = outcome.1.sysExPiece ∧
    piece.data ≠ [] ∧ outcome.1.sysEx.handedOut = true
  ending : ∀ piece, outcome.2 = some (.sysExMessage piece) → piece = outcome.1.sysExPiece ∧
    piece.data ≠ [] ∧ outcome.1.sysEx.receiving = false

variable {decoder : Decoder} {byte status : UInt8}

/-- Without a piece there is nothing to be said about one. -/
theorem Sound.proper {event? : Option Event} (sound : decoder.Sound)
    (other : ∀ event ∈ event?, ∀ piece, event.message ≠ .sysEx piece) :
    Proper (decoder, event?) where
  sound := sound
  chunk piece found := absurd rfl (other _ found piece)
  ending piece found := absurd rfl (other _ found piece)

theorem Sound.silent (sound : decoder.Sound) : Proper (decoder, none) := sound.proper (by simp)

/-- Outside a system exclusive message nothing has been handed out. -/
theorem sound_of_closed (orderly : decoder.sysEx.Orderly)
    (closed : decoder.sysEx.receiving = false)
    (running : ∀ status, decoder.running = some status → isChannelStatus status = true)
    (current : ∀ status, decoder.current = some status →
      status ∈ [0xF1, 0xF2, 0xF3] ∨ decoder.running = some status)
    (underWay : decoder.awaitsSecond = true → decoder.KeepsStatus) : decoder.Sound := by
  have elsewhere : decoder.current ≠ some sysExStart := by
    intro start
    rcases current sysExStart start with common | channel
    · revert common
      decide
    · cases running sysExStart channel
  constructor
  · constructor
    · simp [closed, elsewhere]
    · simp [closed]
    · exact running
    · exact fun status set => .inr (current status set)
    · exact underWay
    · exact orderly
  · intro handed
    simp [orderly.receiving_of_handedOut handed] at closed

theorem sound_initial (keepsRunning : Bool) : (initial keepsRunning).Sound :=
  sound_of_closed SysEx.Assembly.orderly_idle rfl nofun nofun nofun

/-- Inside a system exclusive message there is no running status, and no other message is under
way. -/
theorem consistent_of_open (orderly : decoder.sysEx.Orderly)
    (receiving : decoder.sysEx.receiving = true) (current : decoder.current = some sysExStart)
    (running : decoder.running = none) (whole : decoder.awaitsSecond = false) :
    decoder.Consistent where
  receiving_iff := ⟨fun _ => current, fun _ => receiving⟩
  running_of_receiving _ := running
  running := by simp [running]
  current := by simp [current]
  underWay := by simp [whole]
  orderly := orderly

namespace Consistent

/-- No other message is under way inside a system exclusive message. -/
theorem whole_of_receiving (consistent : decoder.Consistent)
    (receiving : decoder.sysEx.receiving = true) : decoder.awaitsSecond = false := by
  cases awaits : decoder.awaitsSecond with
  | false => rfl
  | true =>
    obtain ⟨status, set, kind⟩ := consistent.underWay awaits
    obtain rfl : sysExStart = status :=
      Option.some.inj ((consistent.receiving_iff.mp receiving).symm.trans set)
    rcases kind with ⟨common, -⟩ | ⟨channel, -⟩
    · exact absurd common (by decide)
    · cases channel

/-- Inside a system exclusive message only its assembly changes. -/
theorem withSysEx (consistent : decoder.Consistent) (receiving : decoder.sysEx.receiving = true)
    {sysEx : Assembly} {held : Option UInt8} (orderly : sysEx.Orderly)
    (still : sysEx.receiving = true) : Consistent { decoder with sysEx, held } :=
  consistent_of_open orderly still (consistent.receiving_iff.mp receiving)
    (consistent.running_of_receiving receiving) (consistent.whole_of_receiving receiving)

/-- Behind a system exclusive message there is no status. -/
theorem closed (consistent : decoder.Consistent) (receiving : decoder.sysEx.receiving = true)
    {sysEx : Assembly} {held : Option UInt8} (orderly : sysEx.Orderly)
    (finished : sysEx.receiving = false) :
    Sound { decoder with sysEx, current := decoder.running, held } := by
  have whole := consistent.whole_of_receiving receiving
  apply sound_of_closed orderly finished
  · exact consistent.running
  · exact fun status set => .inr set
  · simp [whole]

/-! ## Acting on a byte inside a system exclusive message -/

/-- A full piece is handed out while the byte that has no room in it is held back. -/
theorem proper_handOut (consistent : decoder.Consistent)
    (receiving : decoder.sysEx.receiving = true) (goesOn : GoesOn byte) :
    Proper (decoder.handOut byte) where
  sound :=
    { consistent.withSysEx receiving (consistent.orderly.handOut receiving) receiving with
      goesOn := fun _ => ⟨byte, rfl, goesOn⟩ }
  chunk := by
    rintro piece ⟨⟩
    exact ⟨rfl, consistent.orderly.begun receiving, rfl⟩
  ending := by
    rintro piece ⟨⟩

/-- A status that ends a message announces its last piece, or first the full one in front of it. -/
theorem proper_closeSysEx (consistent : decoder.Consistent)
    (receiving : decoder.sysEx.receiving = true)
    (goesOn : decoder.sysEx.handedOut = true → GoesOn status) (low : isData status = false) :
    Proper (decoder.closeSysEx status) := by
  unfold closeSysEx
  split
  · rename_i ends
    split
    · rename_i room
      have nonempty : [sysExEnd] ≠ [] := List.cons_ne_nil _ _
      have filled := SysEx.Assembly.orderly_append nonempty room
      constructor
      · exact consistent.closed receiving filled.finish rfl
      · rintro piece ⟨⟩
      · rintro piece ⟨⟩
        refine ⟨rfl, ?_, rfl⟩
        show (decoder.sysEx.append [sysExEnd]).finish.data ≠ []
        rw [SysEx.Assembly.data_finish_append]
        exact decoder.sysEx.data_append_ne_nil nonempty
    · exact consistent.proper_handOut receiving (.inr ends)
  · rename_i other
    -- Behind a piece that has been handed out, another status would leave the last piece empty.
    have fresh : decoder.sysEx.handedOut = false := by
      rw [← Bool.not_eq_true]
      intro handed
      rcases goesOn handed with data | ends
      · simp [low] at data
      · exact other ends
    constructor
    · exact consistent.closed receiving consistent.orderly.finish rfl
    · rintro piece ⟨⟩
    · rintro piece ⟨⟩
      refine ⟨rfl, ?_, rfl⟩
      show decoder.sysEx.finish.data ≠ []
      rw [SysEx.Assembly.data_finish fresh]
      exact consistent.orderly.begun receiving

/-! ## Acting on a byte outside a system exclusive message -/

/-- With no message open, nothing has been handed out that a byte would have to go on with. -/
theorem sound (consistent : decoder.Consistent) (closed : decoder.sysEx.receiving = false) :
    decoder.Sound where
  toConsistent := consistent
  goesOn handed := by simp [consistent.orderly.receiving_of_handedOut handed] at closed

/-- Without a system exclusive message that is open, the status is not its start byte. -/
theorem current_of_closed (consistent : decoder.Consistent)
    (closed : decoder.sysEx.receiving = false) (status : UInt8)
    (set : decoder.current = some status) :
    status ∈ [0xF1, 0xF2, 0xF3] ∨ decoder.running = some status := by
  rcases consistent.current status set with rfl | other
  · simp [consistent.receiving_iff.mpr set] at closed
  · exact other

/-- A common status has no effect on system exclusive messages that have ended. -/
theorem proper_openCommon (consistent : decoder.Consistent)
    (closed : decoder.sysEx.receiving = false) : Proper (decoder.openCommon status) := by
  have running : ∀ status, (if decoder.keepsRunning then decoder.running else none) = some status →
      isChannelStatus status = true := by
    intro status kept
    exact consistent.running status (Option.ite_none_right_eq_some.mp kept).2
  unfold openCommon
  dsimp only
  split
  · refine Sound.proper ?_ (by simp)
    exact sound_of_closed consistent.orderly closed running (fun _ => .inr) nofun
  · rename_i data
    have common : status ∈ [0xF1, 0xF2, 0xF3] := by
      unfold systemCommonDataCount at data
      grind
    refine Sound.silent ?_
    refine sound_of_closed consistent.orderly closed running ?_ nofun
    rintro status ⟨⟩
    exact .inl common

/-- A status ends the message that is open, if there is one. -/
theorem proper_takeStatus (consistent : decoder.Consistent)
    (goesOn : decoder.sysEx.handedOut = true → GoesOn status) (low : isData status = false) :
    Proper (decoder.takeStatus status) := by
  unfold takeStatus
  split
  · rename_i receiving
    exact consistent.proper_closeSysEx receiving goesOn low
  · rename_i closed
    have closed : decoder.sysEx.receiving = false := by simpa using closed
    split
    · refine Sound.silent ?_
      have started : (decoder.sysEx.start.append [sysExStart]).Orderly :=
        SysEx.Assembly.orderly_append (List.cons_ne_nil _ _) rfl
      exact { consistent_of_open started rfl rfl rfl rfl with
        goesOn := fun handed => by simp at handed }
    · rename_i kind
      refine Sound.silent ?_
      refine sound_of_closed consistent.orderly closed ?_ (fun _ => .inr) nofun
      rintro status ⟨⟩
      simpa [isChannelStatus] using kind
    · exact consistent.proper_openCommon closed
    · exact (consistent.sound closed).silent

/-- Data of a channel message have no effect on system exclusive messages. -/
theorem proper_takeChannelData (consistent : decoder.Consistent)
    (closed : decoder.sysEx.receiving = false) (set : decoder.current = some status)
    (channel : isChannelStatus status = true) :
    Proper (decoder.takeChannelData status byte) := by
  have current := consistent.current_of_closed closed
  unfold takeChannelData
  split
  · refine Sound.proper ?_ (by simp)
    exact sound_of_closed consistent.orderly closed consistent.running current nofun
  · rename_i whole
    dsimp only
    split
    · rename_i two
      refine Sound.silent ?_
      exact sound_of_closed consistent.orderly closed consistent.running current
        fun _ => ⟨status, set, .inr ⟨channel, two, rfl⟩⟩
    · refine Sound.proper ?_ (by simp)
      exact sound_of_closed consistent.orderly closed consistent.running current
        fun awaits => absurd awaits whole

/-- Data of a common message have no effect on system exclusive messages. -/
theorem proper_takeCommonData (consistent : decoder.Consistent)
    (closed : decoder.sysEx.receiving = false) (set : decoder.current = some status) :
    Proper (decoder.takeCommonData status byte) := by
  have current := consistent.current_of_closed closed
  unfold takeCommonData
  split
  · refine Sound.proper ?_ (by simp)
    exact sound_of_closed consistent.orderly closed consistent.running (fun _ => .inr) nofun
  · rename_i whole
    dsimp only
    split
    · rename_i two
      have pointer : status = 0xF2 := by
        unfold systemCommonDataCount at two
        grind
      refine Sound.silent ?_
      exact sound_of_closed consistent.orderly closed consistent.running current
        fun _ => ⟨status, set, .inl ⟨pointer, rfl⟩⟩
    · refine Sound.proper ?_ (by simp)
      exact sound_of_closed consistent.orderly closed consistent.running (fun _ => .inr)
        fun awaits => absurd awaits whole

/-- A data byte goes into the open message, or hands a full piece out and is held back. -/
theorem proper_takeData (consistent : decoder.Consistent) (data : isData byte = true) :
    Proper (decoder.takeData byte) := by
  unfold takeData
  split
  · rename_i unset
    refine (consistent.sound ?_).silent
    rw [← Bool.not_eq_true, consistent.receiving_iff, unset]
    simp
  · rename_i status set
    have start : decoder.sysEx.receiving = true ↔ ByteClass.of status = .sysExStart := by
      rw [consistent.receiving_iff, set, Option.some.injEq, ByteClass.of_eq_sysExStart_iff]
    split
    · rename_i kind
      have receiving := start.mpr kind
      split
      · rename_i room
        have filled := SysEx.Assembly.orderly_append (List.cons_ne_nil byte []) room
        have still := (SysEx.Assembly.receiving_append decoder.sysEx [byte]).trans receiving
        refine Sound.silent ?_
        exact { consistent.withSysEx receiving filled still with
          goesOn := fun handed => by simp at handed }
      · exact consistent.proper_handOut receiving (.inl data)
    · rename_i kind
      have closed : decoder.sysEx.receiving = false := by
        rw [← Bool.not_eq_true, start, kind]
        decide
      exact consistent.proper_takeChannelData closed set (by simp [isChannelStatus, kind])
    · rename_i other _
      have closed : decoder.sysEx.receiving = false := by
        rw [← Bool.not_eq_true, start]
        exact other
      exact consistent.proper_takeCommonData closed set

/-- One byte leads from a sound state to a sound state. -/
theorem proper_feed (consistent : decoder.Consistent) (byte : UInt8)
    (goesOn : decoder.sysEx.handedOut = true → GoesOn byte) : Proper (decoder.feed byte) := by
  unfold feed
  split
  · rename_i kind
    exact consistent.proper_takeData (by simp [isData, kind])
  · rename_i kind
    refine Sound.proper ?_ (by simp)
    refine { consistent with goesOn := fun handed => ?_ }
    rcases goesOn handed with data | rfl
    · simp [isData, kind] at data
    · cases kind
  · rename_i other _
    exact consistent.proper_takeStatus goesOn (by simpa [isData] using other)

end Consistent

/-! ## Pulls -/

namespace Sound

/-- A byte that is acted on while none is held back finds nothing that has been handed out. -/
theorem proper_feed (sound : decoder.Sound) (clear : decoder.held = none) (byte : UInt8) :
    Proper (decoder.feed byte) := by
  apply sound.toConsistent.proper_feed byte
  intro handed
  obtain ⟨waiting, held, -⟩ := sound.goesOn handed
  simp [clear] at held

/-- The byte held back is acted on in a state that is ready for it. -/
theorem proper_resume (sound : decoder.Sound) : Proper decoder.resume := by
  unfold resume
  split
  · exact sound.silent
  · rename_i byte held
    have taken : Consistent { decoder with held := none } := { sound.toConsistent with }
    apply taken.proper_feed byte
    intro handed
    obtain ⟨waiting, still, goesOn⟩ := sound.goesOn handed
    obtain rfl : byte = waiting := Option.some.inj (held.symm.trans still)
    exact goesOn

theorem proper_scan (sound : decoder.Sound) (clear : decoder.held = none) (input : List UInt8) :
    Proper ((decoder.scan input).decoder, (decoder.scan input).event?) := by
  induction input generalizing decoder with
  | nil => exact sound.silent
  | cons byte rest ih =>
    have fed := sound.proper_feed clear byte
    have kept (quiet : (decoder.feed byte).2 = none) := held_feed_of_none clear quiet
    unfold scan
    split
    · rename_i next event equation
      rwa [equation] at fed
    · rename_i next equation
      rw [equation] at fed kept
      exact ih fed.sound (kept rfl)

/-- Every pull from a sound state has a proper outcome. -/
theorem proper_pull (sound : decoder.Sound) (input : List UInt8) :
    Proper ((decoder.pull input).decoder, (decoder.pull input).event?) := by
  have resumed := sound.proper_resume
  have kept (quiet : decoder.resume.2 = none) := held_resume_of_none quiet
  unfold pull
  split
  · rename_i next event equation
    rwa [equation] at resumed
  · rename_i next equation
    rw [equation] at resumed kept
    exact resumed.sound.proper_scan (kept rfl) input

/-- The byte that is held back when bytes have been handed out is the first one of the next
piece. -/
theorem data_resume (sound : decoder.Sound) (handed : decoder.sysEx.handedOut = true) :
    ∃ byte, decoder.held = some byte ∧ GoesOn byte ∧ decoder.resume.1.sysEx.data = [byte] := by
  have receiving := sound.orderly.receiving_of_handedOut handed
  have room : decoder.sysEx.hasRoom 1 = true :=
    SysEx.Assembly.hasRoom_of_handedOut handed (by decide)
  have start : ByteClass.of sysExStart = .sysExStart := rfl
  have next (byte : UInt8) : (decoder.sysEx.append [byte]).data = [byte] :=
    SysEx.Assembly.data_append_of_handedOut handed [byte]
  obtain ⟨byte, held, goesOn⟩ := sound.goesOn handed
  refine ⟨byte, held, goesOn, ?_⟩
  rw [resume, held]
  rcases goesOn with data | rfl
  · have kind : ByteClass.of byte = .data := by simpa [isData] using data
    simp [feed, kind, takeData, sound.receiving_iff.mp receiving, start, room, next]
  · have kind : ByteClass.of sysExEnd = .sysExEnd := rfl
    have last : (decoder.sysEx.append [sysExEnd]).finish.data = [sysExEnd] := by
      rw [SysEx.Assembly.data_finish_append, next]
    simp [feed, kind, takeStatus, receiving, closeSysEx, room, last]

end Sound

/-! ## Runs -/

/-- The decoder behind pulls, one from each of these inputs. What a pull leaves unread may be the next
input, or stand in front of it. -/
def run (decoder : Decoder) : List (List UInt8) → Decoder
  | [] => decoder
  | input :: inputs => (decoder.pull input).decoder.run inputs

namespace Sound

/-- Every run of pulls leads from sound states to sound states. -/
theorem run (sound : decoder.Sound) (inputs : List (List UInt8)) : (decoder.run inputs).Sound := by
  induction inputs generalizing decoder with
  | nil => exact sound
  | cons input inputs ih => exact ih (sound.proper_pull input).sound

/-- A pull from a sound state announces only pieces that can be read behind it. -/
theorem announced_pull (sound : decoder.Sound) (input : List UInt8) :
    (decoder.pull input).Announced := by
  have proper := sound.proper_pull input
  constructor
  · intro piece announced
    obtain ⟨event, found, same⟩ := Option.map_eq_some_iff.mp announced
    have readable : piece = (decoder.pull input).decoder.sysExPiece ∧ piece.data ≠ [] := by
      cases event with
      | sysExChunk other =>
        cases same
        exact ⟨(proper.chunk _ found).1, (proper.chunk _ found).2.1⟩
      | sysExMessage other =>
        cases same
        exact ⟨(proper.ending _ found).1, (proper.ending _ found).2.1⟩
      | _ => cases same
    obtain ⟨rfl, nonempty⟩ := readable
    exact ⟨nonempty, proper.sound.orderly.bounded⟩
  · intro piece announced
    obtain ⟨rfl, -, handed⟩ := proper.chunk piece announced
    obtain ⟨byte, held, belongs, next⟩ := proper.sound.data_resume handed
    have receiving : (decoder.pull input).decoder.sysEx.receiving = true :=
      proper.sound.orderly.receiving_of_handedOut handed
    exact ⟨by simp [sysExPiece, SysEx.Assembly.piece, receiving], byte, held, belongs,
      SysEx.Assembly.hasRoom_of_handedOut handed (by decide), next⟩
  · intro piece announced
    obtain ⟨rfl, -, closed⟩ := proper.ending piece announced
    have closed : (decoder.pull input).decoder.sysEx.receiving = false := closed
    simp [sysExPiece, SysEx.Assembly.piece, closed]

end Sound

end Decoder

end MidiTransport.Stream
