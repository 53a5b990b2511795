import Mathlib.Data.List.Basic
import MidiTransport.Proofs.Message.Sequence

/-!
# System exclusive messages in chunks of any length

A sender may cut a system exclusive message anywhere, also in front of its start byte and behind
its end byte: only the chunks together have to be a whole message (`Sequenced`). Nobody hears
a chunk without bytes. What a receiver hears of the chunks are the messages of `Message.heard?`,
in which a message ends with the chunk that brings its end byte, and these are orderly
(`Sequenced.orderly`). So a message may be heard before the sender has come to its last chunk.
This makes a difference exactly if a real-time message comes in between
(`Sequenced.joined_heard_iff`).
-/

namespace MidiTransport

/-! ## Chunks of whole messages -/

/-- The bytes of a whole system exclusive message. -/
def IsExclusive (bytes : List UInt8) : Prop :=
  ∃ body : List UInt8, (∀ byte ∈ body, ByteClass.of byte = .data) ∧
    bytes = sysExStart :: body ++ [sysExEnd]

/-- The message may come next, when these bytes of an unfinished system exclusive message have
been sent, or when there is none. The last chunk makes the bytes a whole message. -/
def Message.Continues (sent : Option (List UInt8)) : Message → Prop
  | channel message => sent = none ∧ message.WellFormed
  | common message => sent = none ∧ message.WellFormed
  | realTime message => message.isValid = true
  | sysEx piece =>
    piece.first = sent.isNone ∧ (piece.last = true → IsExclusive (sent.getD [] ++ piece.data))

/-- The bytes of an unfinished system exclusive message that have been sent behind this message. -/
def Message.sentAfter (sent : Option (List UInt8)) : Message → Option (List UInt8)
  | sysEx piece => if piece.last then none else some (sent.getD [] ++ piece.data)
  | _ => sent

/-- The messages may come one after the other. Chunks make up whole system exclusive messages, with
only real-time messages between them. -/
def Sequenced (sent : Option (List UInt8)) : List Message → Prop
  | [] => sent = none
  | message :: later => message.Continues sent ∧ Sequenced (message.sentAfter sent) later

/-- No real-time message comes between the end byte of a system exclusive message and its last
chunk. -/
def Prompt (sent : Option (List UInt8)) : List Message → Prop
  | [] => True
  | message :: later =>
    (message.isRealTime = true → ¬ IsExclusive (sent.getD [])) ∧
      Prompt (message.sentAfter sent) later

/-- What is heard of a message. A chunk without bytes is not heard. The others begin a message
if their first byte is the start byte, and end it if their last byte is the end byte. -/
def Message.heard? : Message → Option Message
  | sysEx piece => if piece.isEmpty then none else some (sysEx (.ofBytes piece.data piece.cable))
  | message => some message

/-! ## The parts of a whole message -/

theorem ne_sysExStart_of_data {byte : UInt8} (low : ByteClass.of byte = .data) :
    byte ≠ sysExStart := by
  rintro rfl
  exact absurd low (by decide)

/-- A message under way has its start byte behind it and its end byte before it. -/
inductive Divides : List UInt8 → List UInt8 → Prop where
  | before {back : List UInt8} (whole : IsExclusive back) : Divides [] back
  | within {front back : List UInt8} (lowFront : ∀ byte ∈ front, ByteClass.of byte = .data)
      (lowBack : ∀ byte ∈ back, ByteClass.of byte = .data) :
      Divides (sysExStart :: front) (back ++ [sysExEnd])
  | behind {front : List UInt8} (whole : IsExclusive front) : Divides front []

/-- Wherever a message is cut, the cut is in front of it, inside it or behind it. -/
theorem IsExclusive.divides {front back : List UInt8} (whole : IsExclusive (front ++ back)) :
    Divides front back := by
  obtain ⟨body, low, spelled⟩ := whole
  cases front with
  | nil => exact .before ⟨body, low, spelled⟩
  | cons start front =>
    obtain ⟨rfl, spelled⟩ : start = sysExStart ∧ front ++ back = body ++ [sysExEnd] := by
      simpa using spelled
    rcases back.eq_nil_or_concat with rfl | ⟨back, final, rfl⟩
    · exact .behind ⟨body, low, by simpa using spelled⟩
    · obtain ⟨rfl, rfl⟩ : front ++ back = body ∧ final = sysExEnd := by
        rw [List.concat_eq_append, ← List.append_assoc] at spelled
        simpa using List.append_inj' spelled rfl
      rw [List.concat_eq_append]
      exact .within (fun _ member => low _ (by simp [member]))
        (fun _ member => low _ (by simp [member]))

/-- The end byte is not among the start byte and the data bytes. -/
theorem getLast?_ne_sysExEnd {front : List UInt8}
    (low : ∀ byte ∈ front, ByteClass.of byte = .data) :
    (sysExStart :: front).getLast? ≠ some sysExEnd := by
  intro final
  rcases List.mem_cons.mp (List.mem_of_getLast? final) with same | member
  · exact absurd same (by decide)
  · exact ne_sysExEnd_of_data (low _ member) rfl

/-- A message ends with its end byte. -/
theorem IsExclusive.getLast? {bytes : List UInt8} (whole : IsExclusive bytes) :
    bytes.getLast? = some sysExEnd := by
  obtain ⟨body, -, rfl⟩ := whole
  exact List.getLast?_concat

/-- Of the parts of a whole message only the whole message ends with the end byte. -/
theorem Divides.isExclusive_iff {front back : List UInt8} (divides : Divides front back) :
    IsExclusive front ↔ front.getLast? = some sysExEnd := by
  refine ⟨IsExclusive.getLast?, fun final => ?_⟩
  cases divides with
  | before => simp at final
  | within low => exact absurd final (getLast?_ne_sysExEnd low)
  | behind whole => exact whole

/-- The end byte is the last byte of all. -/
theorem Divides.getLast?_ne {front back : List UInt8} (divides : Divides front back)
    (more : back ≠ []) : front.getLast? ≠ some sysExEnd := by
  cases divides with
  | before => simp
  | within low => exact getLast?_ne_sysExEnd low
  | behind => exact absurd rfl more

/-- The bytes are the front part of a message under way: a start byte has been sent, and an end
byte has not. -/
def isUnderWay (bytes : List UInt8) : Bool :=
  !bytes.isEmpty && bytes.getLast? != some sysExEnd

@[simp] theorem isUnderWay_nil : isUnderWay [] = false := by
  simp [isUnderWay]

@[simp] theorem isUnderWay_concat_sysExEnd (bytes : List UInt8) :
    isUnderWay (bytes ++ [sysExEnd]) = false := by
  simp [isUnderWay]

/-- A start byte with data is a message under way. -/
theorem isUnderWay_cons {front : List UInt8} (low : ∀ byte ∈ front, ByteClass.of byte = .data) :
    isUnderWay (sysExStart :: front) = true := by
  simpa [isUnderWay] using getLast?_ne_sysExEnd low

/-- The outer bytes of a piece show its place in the message. -/
theorem SysExPiece.ofBytes_eq {data body : List UInt8} {first last : Bool} (cable : Cable)
    (low : ∀ byte ∈ body, ByteClass.of byte = .data)
    (spelled : data =
      (if first then [sysExStart] else []) ++ body ++ if last then [sysExEnd] else []) :
    SysExPiece.ofBytes data cable = ⟨data, cable, first, last⟩ := by
  have head : data.head? = some sysExStart ↔ first = true := by
    subst spelled
    cases first with
    | true => simp
    | false =>
      cases body with
      | nil => cases last <;> decide
      | cons byte body => simpa using ne_sysExStart_of_data (low byte (by simp))
  have final : data.getLast? = some sysExEnd ↔ last = true := by
    subst spelled
    cases last with
    | true => simp
    | false =>
      rcases body.eq_nil_or_concat with rfl | ⟨body, byte, rfl⟩
      · cases first <;> decide
      · simpa using ne_sysExEnd_of_data (low byte (by simp))
  simp only [ofBytes, mk.injEq, true_and]
  exact ⟨Bool.eq_iff_iff.mpr (by simpa using head), Bool.eq_iff_iff.mpr (by simpa using final)⟩

/-- A chunk with bytes begins with the start byte unless the message is under way, and ends with
the end byte unless it still is. -/
theorem IsExclusive.chunk {front data back : List UInt8} (whole : IsExclusive (front ++ (data ++ back)))
    (heard : data ≠ []) :
    ∃ body : List UInt8, (∀ byte ∈ body, ByteClass.of byte = .data) ∧
      data = (if !MidiTransport.isUnderWay front then [sysExStart] else []) ++ body ++
        if !MidiTransport.isUnderWay (front ++ data) then [sysExEnd] else [] := by
  generalize rest : data ++ back = following at whole
  cases whole.divides with
  | before exclusive =>
    subst rest
    cases exclusive.divides with
    | before => exact absurd rfl heard
    | @within front back low _ => exact ⟨front, low, by simp [isUnderWay_cons low]⟩
    | behind alone =>
      obtain ⟨body, low, rfl⟩ := alone
      refine ⟨body, low, ?_⟩
      rw [List.nil_append, isUnderWay_concat_sysExEnd]
      rfl
  | @within front body lowFront low =>
    -- The chunk has the end byte exactly if no bytes are left behind it.
    rcases back.eq_nil_or_concat with rfl | ⟨back, final, rfl⟩
    · obtain rfl : data = body ++ [sysExEnd] := by simpa using rest
      refine ⟨body, low, ?_⟩
      rw [isUnderWay_cons lowFront, ← List.append_assoc, isUnderWay_concat_sysExEnd]
      rfl
    · obtain ⟨rfl, -⟩ : data ++ back = body ∧ final = sysExEnd := by
        rw [List.concat_eq_append, ← List.append_assoc] at rest
        simpa using List.append_inj' rest rfl
      have lowData : ∀ byte ∈ data, ByteClass.of byte = .data :=
        fun _ member => low _ (by simp [member])
      have lowBoth : ∀ byte ∈ front ++ data, ByteClass.of byte = .data :=
        fun _ member => (List.mem_append.mp member).elim (lowFront _) (lowData _)
      exact ⟨data, lowData, by simp [isUnderWay_cons lowFront, isUnderWay_cons lowBoth]⟩
  | behind => simp_all

/-! ## What is heard of chunks -/

/-- An unfinished message can be finished. -/
theorem Sequenced.exists_rest {bytes : List UInt8} {messages : List Message}
    (sequenced : Sequenced (some bytes) messages) : ∃ rest, IsExclusive (bytes ++ rest) := by
  induction messages generalizing bytes with
  | nil => cases sequenced
  | cons message later ih =>
    obtain ⟨continues, sequencedLater⟩ := sequenced
    cases message with
    | channel => cases continues.1
    | common => cases continues.1
    | realTime => exact ih sequencedLater
    | sysEx piece =>
      cases last : piece.last with
      | true => exact ⟨piece.data, continues.2 last⟩
      | false =>
        rw [Message.sentAfter, last] at sequencedLater
        obtain ⟨rest, whole⟩ := ih sequencedLater
        exact ⟨piece.data ++ rest, by simpa using whole⟩

/-- The bytes that have been sent are a whole message if they end with the end byte. -/
theorem Sequenced.isExclusive_iff {sent : Option (List UInt8)} {messages : List Message}
    (sequenced : Sequenced sent messages) :
    IsExclusive (sent.getD []) ↔ (sent.getD []).getLast? = some sysExEnd := by
  refine ⟨IsExclusive.getLast?, fun final => ?_⟩
  cases sent with
  | none => simp at final
  | some bytes =>
    obtain ⟨rest, whole⟩ := sequenced.exists_rest
    exact whole.divides.isExclusive_iff.mpr final

/-- A chunk is a part of a whole message. -/
theorem Sequenced.exists_whole {sent : Option (List UInt8)} {piece : SysExPiece}
    {later : List Message} (sequenced : Sequenced sent (.sysEx piece :: later)) :
    ∃ rest, IsExclusive (sent.getD [] ++ (piece.data ++ rest)) := by
  obtain ⟨continues, sequencedLater⟩ := sequenced
  cases last : piece.last with
  | true => exact ⟨[], by simpa using continues.2 last⟩
  | false =>
    rw [Message.sentAfter, last] at sequencedLater
    obtain ⟨rest, whole⟩ := sequencedLater.exists_rest
    exact ⟨rest, by simpa using whole⟩

/-- Behind a chunk a message is under way just as its bytes show, also if the chunk is the last. -/
theorem Message.Continues.isUnderWay_sentAfter {sent : Option (List UInt8)} {piece : SysExPiece}
    (continues : (Message.sysEx piece).Continues sent) :
    isUnderWay (((Message.sysEx piece).sentAfter sent).getD []) =
      isUnderWay (sent.getD [] ++ piece.data) := by
  cases last : piece.last with
  | true =>
    obtain ⟨body, -, whole⟩ := continues.2 last
    rw [sentAfter, last, whole, isUnderWay_concat_sysExEnd]
    rfl
  | false => simp [sentAfter, last]

/-- A chunk without bytes is not heard. -/
theorem Message.heard?_sysEx_of_nil {piece : SysExPiece} (silent : piece.data = []) :
    (sysEx piece).heard? = none := by
  simp [heard?, SysExPiece.isEmpty, silent]

/-- A chunk with bytes is heard as what its bytes say it is. -/
theorem Message.heard?_sysEx_of_ne_nil {piece : SysExPiece} (heard : piece.data ≠ []) :
    (sysEx piece).heard? = some (sysEx (.ofBytes piece.data piece.cable)) := by
  simp [heard?, SysExPiece.isEmpty, heard]

/-- What is heard of the messages is orderly. -/
theorem Sequenced.orderly {sent : Option (List UInt8)} {messages : List Message}
    (sequenced : Sequenced sent messages) :
    Orderly (isUnderWay (sent.getD [])) (messages.filterMap (·.heard?)) := by
  induction messages generalizing sent with
  | nil =>
    obtain rfl : sent = none := sequenced
    rfl
  | cons message later ih =>
    obtain ⟨continues, sequencedLater⟩ := id sequenced
    have orderlyLater := ih sequencedLater
    cases message with
    | channel message =>
      obtain ⟨rfl, formed⟩ := continues
      exact ⟨⟨rfl, formed⟩, orderlyLater⟩
    | common message =>
      obtain ⟨rfl, formed⟩ := continues
      exact ⟨⟨rfl, formed⟩, orderlyLater⟩
    | realTime message => exact ⟨continues, orderlyLater⟩
    | sysEx piece =>
      rw [continues.isUnderWay_sentAfter] at orderlyLater
      by_cases silent : piece.data = []
      · rw [List.filterMap_cons_none (Message.heard?_sysEx_of_nil silent)]
        simpa [silent] using orderlyLater
      · obtain ⟨rest, whole⟩ := sequenced.exists_whole
        obtain ⟨body, low, spelled⟩ := whole.chunk silent
        rw [List.filterMap_cons_some (Message.heard?_sysEx_of_ne_nil silent),
          SysExPiece.ofBytes_eq piece.cable low spelled]
        refine ⟨⟨rfl, body, low, spelled⟩, ?_⟩
        simpa [Message.leavesInside] using orderlyLater

/-- What is heard of messages behind these bytes, joined and on the first cable. -/
def heardBehind (bytes : List UInt8) (messages : List Message) : List Message × List UInt8 :=
  joined [] (.sysEx (.ofBytes bytes .first) ::
    (messages.filterMap (·.heard?)).map (·.onFirstCable))

/-- One more chunk is heard as if it had been a part of the one in front of it. -/
theorem heardBehind_sysEx {bytes : List UInt8} {piece : SysExPiece} (later : List Message)
    (goesOn : piece.data ≠ [] → bytes.getLast? ≠ some sysExEnd) :
    heardBehind bytes (.sysEx piece :: later) = heardBehind (bytes ++ piece.data) later := by
  by_cases silent : piece.data = []
  · rw [heardBehind, List.filterMap_cons_none (Message.heard?_sysEx_of_nil silent), silent,
      List.append_nil]
    rfl
  · have unfinished : bytes.getLast? ≠ some sysExEnd := goesOn silent
    have final : (bytes ++ piece.data).getLast? = piece.data.getLast? :=
      List.getLast?_append_of_ne_nil _ silent
    rw [heardBehind, List.filterMap_cons_some (Message.heard?_sysEx_of_ne_nil silent)]
    simp [heardBehind, joined, absorb, SysExPiece.ofBytes, Message.onFirstCable, unfinished, final]

/-- Behind the end byte of a message the message has been heard. -/
theorem IsExclusive.heardBehind {bytes : List UInt8} (whole : IsExclusive bytes)
    (later : List Message) :
    heardBehind bytes later =
      (.sysEx ⟨bytes, .first, true, true⟩ :: (MidiTransport.heardBehind [] later).1,
        (MidiTransport.heardBehind [] later).2) := by
  simp [MidiTransport.heardBehind, joined, absorb, SysExPiece.ofBytes, whole.getLast?]

/-- Another message is heard at once, unless the end byte of a message has been sent. -/
theorem heardBehind_cons {bytes : List UInt8} {message : Message} (later : List Message)
    (unfinished : bytes.getLast? ≠ some sysExEnd) (other : ∀ piece, message ≠ .sysEx piece) :
    heardBehind bytes (message :: later) =
      (message.onFirstCable :: (heardBehind bytes later).1, (heardBehind bytes later).2) := by
  cases message with
  | sysEx piece => exact absurd rfl (other piece)
  | _ =>
    simp [heardBehind, joined, absorb, SysExPiece.ofBytes, unfinished, Message.heard?,
      Message.onFirstCable]

/-- A sender's message that is no chunk keeps its place. -/
theorem joined_cons_onFirstCable {held : List UInt8} {message : Message} (later : List Message)
    (other : ∀ piece, message ≠ .sysEx piece) :
    joined held ((message :: later).map (·.onFirstCable)) =
      (message.onFirstCable :: (joined held (later.map (·.onFirstCable))).1,
        (joined held (later.map (·.onFirstCable))).2) := by
  cases message with
  | sysEx piece => exact absurd rfl (other piece)
  | _ => rfl

/-- A sender's message is put together at the place of its last chunk. -/
theorem joined_cons_of_last {held : List UInt8} {piece : SysExPiece} (later : List Message)
    (last : piece.last = true) :
    joined held ((Message.sysEx piece :: later).map (·.onFirstCable)) =
      (.sysEx ⟨held ++ piece.data, .first, true, true⟩ ::
          (joined [] (later.map (·.onFirstCable))).1,
        (joined [] (later.map (·.onFirstCable))).2) := by
  simp only [List.map_cons, joined, Message.onFirstCable, absorb, last]
  rfl

/-- A chunk that is not the last one is held until its message ends. -/
theorem joined_cons_of_open {held : List UInt8} {piece : SysExPiece} (later : List Message)
    (goesOn : piece.last = false) :
    joined held ((Message.sysEx piece :: later).map (·.onFirstCable)) =
      joined (held ++ piece.data) (later.map (·.onFirstCable)) := by
  simp only [List.map_cons, joined, Message.onFirstCable, absorb, goesOn]
  rfl

/-- One and the same message in front makes no difference. -/
theorem cons_eq_cons_iff {message : Message} {heard sent : List Message × List UInt8} :
    (message :: heard.1, heard.2) = (message :: sent.1, sent.2) ↔ heard = sent := by
  simp [Prod.ext_iff]

/-- Only a real time message has to wait for the bytes in front of it to be sent. -/
theorem prompt_cons_iff {sent : Option (List UInt8)} {message : Message} (later : List Message)
    (other : message.isRealTime = false) :
    Prompt sent (message :: later) ↔ Prompt (message.sentAfter sent) later := by
  simp [Prompt, other]

/-- The chunks may be put together at the place of the last one, as the sender does, exactly if no
real-time message comes between the end byte and the last chunk. -/
theorem Sequenced.heardBehind_eq_joined_iff {sent : Option (List UInt8)} {messages : List Message}
    (sequenced : Sequenced sent messages) :
    heardBehind (sent.getD []) messages =
        joined (sent.getD []) (messages.map (·.onFirstCable)) ↔ Prompt sent messages := by
  induction messages generalizing sent with
  | nil =>
    obtain rfl : sent = none := sequenced
    exact iff_of_true rfl trivial
  | cons message later ih =>
    obtain ⟨continues, sequencedLater⟩ := id sequenced
    have recur := ih sequencedLater
    cases message with
    | channel message =>
      obtain ⟨rfl, -⟩ := continues
      rw [heardBehind_cons later (by simp) (by simp), joined_cons_onFirstCable later (by simp),
        cons_eq_cons_iff]
      exact recur.trans (prompt_cons_iff later rfl).symm
    | common message =>
      obtain ⟨rfl, -⟩ := continues
      rw [heardBehind_cons later (by simp) (by simp), joined_cons_onFirstCable later (by simp),
        cons_eq_cons_iff]
      exact recur.trans (prompt_cons_iff later rfl).symm
    | realTime message =>
      rw [joined_cons_onFirstCable later (by simp)]
      by_cases whole : IsExclusive (sent.getD [])
      · -- The message that has been heard comes first here, and the real-time message there.
        rw [whole.heardBehind]
        exact iff_of_false (by simp [Message.onFirstCable]) fun prompt => prompt.1 rfl whole
      · have unfinished : (sent.getD []).getLast? ≠ some sysExEnd :=
          fun final => whole (sequenced.isExclusive_iff.mpr final)
        rw [heardBehind_cons later unfinished (by simp), cons_eq_cons_iff]
        exact recur.trans ⟨fun prompt => ⟨fun _ => whole, prompt⟩, And.right⟩
    | sysEx piece =>
      obtain ⟨rest, whole⟩ := sequenced.exists_whole
      have goesOn : piece.data ≠ [] → (sent.getD []).getLast? ≠ some sysExEnd :=
        fun heard => whole.divides.getLast?_ne (by simp [heard])
      -- A chunk makes no difference to what is heard, so all depends on the later messages.
      have same : heardBehind (sent.getD []) (.sysEx piece :: later) =
            joined (sent.getD []) ((Message.sysEx piece :: later).map (·.onFirstCable)) ↔
          heardBehind (((Message.sysEx piece).sentAfter sent).getD []) later =
            joined (((Message.sysEx piece).sentAfter sent).getD [])
              (later.map (·.onFirstCable)) := by
        rw [heardBehind_sysEx later goesOn]
        cases last : piece.last with
        | true =>
          rw [(continues.2 last).heardBehind, joined_cons_of_last later last, cons_eq_cons_iff,
            Message.sentAfter, last]
          rfl
        | false =>
          rw [joined_cons_of_open later last, Message.sentAfter, last]
          rfl
      exact same.trans (recur.trans (prompt_cons_iff later rfl).symm)

end MidiTransport
