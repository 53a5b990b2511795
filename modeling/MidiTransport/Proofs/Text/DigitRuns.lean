import Mathlib.Data.List.Basic
import MidiTransport.Text.HexReader

/-!
# The digits of a text

A text is cut into runs of digits by everything that is no digit. A run is read in pairs, and its
odd last digit counts once the run has ended (`textBytes`). A reader finds the bytes of a text
wherever the parts that it arrives in end (`HexReader.pullsInTurn_eq_textBytes`), because the digit
that waits is all that the text so far has left behind.
-/

namespace MidiTransport

/-! ## Runs -/

/-- The small digits, in the order of their values. -/
def smallDigits : List Char :=
  ['0', '1', '2', '3', '4', '5', '6', '7', '8', '9', 'a', 'b', 'c', 'd', 'e', 'f']

/-- The capital digits, in the order of their values. -/
def capitalDigits : List Char :=
  ['0', '1', '2', '3', '4', '5', '6', '7', '8', '9', 'A', 'B', 'C', 'D', 'E', 'F']

/-- The value of a character that is a digit, small or capital. -/
def digitValue? (character : UInt8) : Option Nat :=
  (smallDigits.idxOf? (Char.ofUInt8 character)).or (capitalDigits.idxOf? (Char.ofUInt8 character))

/-- Does a character end a run of digits? -/
def separates (character : UInt8) : Bool := (digitValue? character).isNone

/-- The values of the digits between any two separators, in front of the first and behind the last
one. All runs but the last are followed by a separator. -/
def digitRuns (text : List UInt8) : List (List Nat) :=
  (text.splitOnP separates).map (·.filterMap digitValue?)

/-- The bytes of a run, two digits each. The odd last digit is a byte if the run has ended. -/
def runBytes (ended : Bool) : List Nat → List UInt8
  | [] => []
  | [digit] => if ended then [UInt8.ofNat digit] else []
  | high :: low :: rest => UInt8.ofNat (16 * high + low) :: runBytes ended rest

/-- The bytes of runs, all of which have ended but the last. -/
def runsBytes : List (List Nat) → List UInt8
  | [] => []
  | [run] => runBytes false run
  | run :: later => runBytes true run ++ runsBytes later

/-- The bytes of a text. -/
def textBytes (text : List UInt8) : List UInt8 := runsBytes (digitRuns text)

/-- A text spells bytes if each of them is written with two digits, and what stands between them,
in front of them and behind them are no digits. -/
inductive HexSpelling : List UInt8 → List UInt8 → Prop where
  | nil : HexSpelling [] []
  | separator {character : UInt8} {text bytes : List UInt8} (apart : digitValue? character = none)
      (rest : HexSpelling text bytes) : HexSpelling (character :: text) bytes
  | byte {high low byte : UInt8} {text bytes : List UInt8}
      (upper : digitValue? high = some (byte.toNat / 16))
      (lower : digitValue? low = some (byte.toNat % 16))
      (rest : HexSpelling text bytes) : HexSpelling (high :: low :: text) (byte :: bytes)

/-- Every text has at least one run, which may be empty. -/
theorem digitRuns_ne_nil (text : List UInt8) : digitRuns text ≠ [] := by
  simp [digitRuns]

/-- A separator ends a run. -/
theorem digitRuns_of_separator {character : UInt8} (apart : digitValue? character = none)
    (rest : List UInt8) : digitRuns (character :: rest) = [] :: digitRuns rest := by
  simp [digitRuns, List.splitOnP_cons_eq_if_modifyHead, separates, apart]

/-- A digit goes on with the run behind it. -/
theorem digitRuns_of_digit {character : UInt8} {digit : Nat}
    (value : digitValue? character = some digit) (rest : List UInt8) :
    digitRuns (character :: rest) = (digitRuns rest).modifyHead (digit :: ·) := by
  obtain ⟨run, later, split⟩ := List.exists_cons_of_ne_nil (List.splitOnP_ne_nil separates rest)
  simp [digitRuns, List.splitOnP_cons_eq_if_modifyHead, separates, value, split]

/-- A run in front of others is ended by a separator. -/
theorem runsBytes_cons {runs : List (List Nat)} (more : runs ≠ []) (run : List Nat) :
    runsBytes (run :: runs) = runBytes true run ++ runsBytes runs := by
  cases runs with
  | nil => exact absurd rfl more
  | cons => rfl

/-- Two digits at the start of a run are a byte, whether the run has ended or not. -/
theorem runsBytes_pair (run : List Nat) (later : List (List Nat)) (high low : Nat) :
    runsBytes ((high :: low :: run) :: later) =
      UInt8.ofNat (16 * high + low) :: runsBytes (run :: later) := by
  cases later <;> rfl

/-! ## Digits -/

/-- The reader takes the same characters for digits. -/
theorem hexDigit?_eq (character : UInt8) :
    hexDigit? character = (digitValue? character).map UInt8.ofNat := by
  have all : ∀ code < 256, hexDigit? (UInt8.ofNat code) =
      (digitValue? (UInt8.ofNat code)).map UInt8.ofNat := by decide +kernel
  simpa using all character.toNat character.toNat_lt

/-- A digit is less than sixteen. -/
theorem digitValue?_lt {character : UInt8} {digit : Nat}
    (value : digitValue? character = some digit) : digit < 16 := by
  rw [digitValue?, Option.or_eq_some_iff] at value
  obtain small | ⟨-, capital⟩ := value
  · obtain ⟨bound, -⟩ := List.idxOf?_eq_some_iff.mp small
    exact bound
  · obtain ⟨bound, -⟩ := List.idxOf?_eq_some_iff.mp capital
    exact bound

/-- A digit fits in a byte. -/
theorem toNat_ofNat_digit {digit : Nat} (small : digit < 16) :
    (UInt8.ofNat digit).toNat = digit := by
  rw [UInt8.toNat_ofNat']
  omega

/-- The digits of a pair take four bits each. -/
theorem pair_eq {low : Nat} (high : UInt8) (small : low < 16) :
    high <<< 4 ||| UInt8.ofNat low = UInt8.ofNat (16 * high.toNat + low) := by
  have shifted : (high <<< 4).toNat = (high.toNat % 16) <<< 4 := by
    simp only [UInt8.toNat_shiftLeft, UInt8.reduceToNat, Nat.reduceMod, Nat.shiftLeft_eq]
    omega
  apply UInt8.toNat_inj.mp
  rw [UInt8.toNat_or, shifted, toNat_ofNat_digit small, ← Nat.shiftLeft_add_eq_or_of_lt small,
    Nat.shiftLeft_eq, UInt8.toNat_ofNat']
  omega

namespace HexReader

variable {reader : HexReader} {character : UInt8} {digit : Nat}

/-- A separator completes a byte of one digit, and nothing of it remains. -/
theorem accept_of_separator (reader : HexReader) (apart : digitValue? character = none) :
    reader.accept character = (initial, reader.pending) := by
  rw [accept, hexDigit?_eq, apart]
  rfl

/-- A digit waits for its partner. -/
theorem accept_initial (value : digitValue? character = some digit) :
    initial.accept character = (⟨some (UInt8.ofNat digit)⟩, none) := by
  rw [accept, hexDigit?_eq, value]
  rfl

/-- A digit completes the byte of a digit that waits. -/
theorem accept_of_pending (high : UInt8) (value : digitValue? character = some digit) :
    (⟨some high⟩ : HexReader).accept character =
      (initial, some (UInt8.ofNat (16 * high.toNat + digit))) := by
  rw [accept, hexDigit?_eq, value, ← pair_eq high (digitValue?_lt value)]
  rfl

/-! ## Pulling -/

/-- A pull that finds no byte has read the text to its end. -/
theorem rest_pull_of_none {text : List UInt8} (dry : (reader.pull text).byte? = none) :
    (reader.pull text).rest = [] := by
  fun_induction pull reader text with
  | case1 => rfl
  | case2 => cases dry
  | case3 reader character rest next accepted ih => exact ih dry

/-- A pull that finds a byte has read a part of the text. -/
theorem length_rest_pull_lt {text : List UInt8} {byte : UInt8}
    (found : (reader.pull text).byte? = some byte) :
    (reader.pull text).rest.length < text.length := by
  fun_induction pull reader text with
  | case1 => cases found
  | case2 reader character rest => exact Nat.lt_succ_self _
  | case3 reader character rest next accepted ih => exact Nat.lt_succ_of_lt (ih found)

/-- Pull until no byte is found. The answer holds the bytes and the reader behind them. -/
def pulls (reader : HexReader) (text : List UInt8) : List UInt8 × HexReader :=
  match _found : (reader.pull text).byte? with
  | none => ([], (reader.pull text).reader)
  | some byte =>
    let (later, final) := (reader.pull text).reader.pulls (reader.pull text).rest
    (byte :: later, final)
termination_by text.length
decreasing_by exact length_rest_pull_lt _found

/-- Pull from the parts of a text one after the other, from each until no byte is found. -/
def pullsInTurn (reader : HexReader) : List (List UInt8) → List UInt8
  | [] => []
  | part :: parts => (reader.pulls part).1 ++ (reader.pulls part).2.pullsInTurn parts

/-- One pull after the other finds what reading all characters finds. -/
theorem pulls_eq_decode (reader : HexReader) (text : List UInt8) :
    reader.pulls text = reader.decode text := by
  fun_induction pulls reader text with
  | case1 reader text dry => rw [decode_eq_pull, dry]
  | case2 reader text byte found later final equation ih =>
    rw [decode_eq_pull, found]
    dsimp only
    rw [← ih, equation]

/-- It does not matter where a text has been cut. -/
theorem pullsInTurn_eq_decode (reader : HexReader) (parts : List (List UInt8)) :
    reader.pullsInTurn parts = (reader.decode parts.flatten).1 := by
  induction parts generalizing reader with
  | nil => rfl
  | cons part parts ih =>
    rw [pullsInTurn, ih, pulls_eq_decode, List.flatten_cons, decode_append]

/-! ## The bytes of a text -/

theorem decode_cons (reader : HexReader) (character : UInt8) (rest : List UInt8) :
    reader.decode (character :: rest) =
      ((reader.accept character).2.toList ++ ((reader.accept character).1.decode rest).1,
        ((reader.accept character).1.decode rest).2) :=
  rfl

/-- The digit that waits, as the start of a run. -/
def waiting (reader : HexReader) : List Nat := (reader.pending.map UInt8.toNat).toList

/-- The digit that waits belongs to the first run of the text. -/
theorem decode_eq_runsBytes (reader : HexReader) (text : List UInt8) :
    (reader.decode text).1 = runsBytes ((digitRuns text).modifyHead (reader.waiting ++ ·)) := by
  induction text generalizing reader with
  | nil =>
    obtain ⟨_ | high⟩ := reader <;> rfl
  | cons character rest ih =>
    obtain ⟨run, later, runs⟩ := List.exists_cons_of_ne_nil (digitRuns_ne_nil rest)
    simp only [runs, List.modifyHead_cons] at ih
    rw [decode_cons]
    cases value : digitValue? character with
    | none =>
      rw [accept_of_separator _ value, digitRuns_of_separator value, runs, List.modifyHead_cons,
        runsBytes_cons (List.cons_ne_nil _ _), ih]
      obtain ⟨_ | high⟩ := reader
      · rfl
      · simp [waiting, runBytes, initial]
    | some digit =>
      rw [digitRuns_of_digit value, runs]
      obtain ⟨_ | high⟩ := reader
      · have first : (⟨none⟩ : HexReader).accept character = _ := accept_initial value
        have kept : (UInt8.ofNat digit).toNat = digit := toNat_ofNat_digit (digitValue?_lt value)
        rw [first, ih]
        simp [waiting, kept]
      · rw [accept_of_pending high value, ih]
        exact (runsBytes_pair run later high.toNat digit).symm

/-- A text yields the bytes that it spells. -/
theorem decode_of_spelling {text bytes : List UInt8} (spelling : HexSpelling text bytes) :
    initial.decode text = (bytes, initial) := by
  induction spelling with
  | nil => rfl
  | separator apart rest ih =>
    rw [decode_cons, accept_of_separator _ apart]
    exact ih
  | @byte high low byte text bytes upper lower rest ih =>
    have halves : 16 * (byte.toNat / 16) + byte.toNat % 16 = byte.toNat := Nat.div_add_mod _ _
    have kept : (UInt8.ofNat (byte.toNat / 16)).toNat = byte.toNat / 16 :=
      toNat_ofNat_digit (digitValue?_lt upper)
    rw [decode_cons, accept_initial upper, decode_cons, accept_of_pending _ lower, kept, halves,
      UInt8.ofNat_toNat, ih]
    rfl

/-- However a text is divided into parts, a reader finds the bytes of the whole text, each run of
digits read in pairs. If the text spells bytes, these are the bytes. Wherever no byte is found any
more, the part has been read to its end. -/
theorem pullsInTurn_eq_textBytes (parts : List (List UInt8)) :
    initial.pullsInTurn parts = textBytes parts.flatten ∧
      (∀ bytes, HexSpelling parts.flatten bytes → initial.pullsInTurn parts = bytes) ∧
      ∀ (reader : HexReader) (text : List UInt8), (reader.pull text).byte? = none →
        (reader.pull text).rest = [] := by
  refine ⟨?_, fun bytes spelling => ?_, fun reader text dry => rest_pull_of_none dry⟩
  · have nothing (runs : List (List Nat)) : runs.modifyHead (initial.waiting ++ ·) = runs := by
      cases runs <;> rfl
    rw [pullsInTurn_eq_decode, decode_eq_runsBytes, nothing, textBytes]
  · rw [pullsInTurn_eq_decode, decode_of_spelling spelling]

/-- Three bytes in parts of a text. The first two stand side by side, and the second one and the
third one are apart by two characters, one of which is not ASCII. -/
def mixedCaseParts : List (List UInt8) :=
  [[0x37], [], [0x46, 0x61], [0x30, 0xB2], [0x20, 0x43, 0x33]]

/-- The text is read over cuts inside of its bytes, and the first digit of a byte alone brings
nothing. -/
theorem pullsInTurn_eq_textBytes_mixedCase :
    HexSpelling mixedCaseParts.flatten [0x7F, 0xA0, 0xC3] ∧
      initial.pullsInTurn mixedCaseParts = [0x7F, 0xA0, 0xC3] ∧
      (initial.pull [0x37]).byte? = none ∧ (initial.pull [0x37]).rest = [] := by
  have spelling : HexSpelling mixedCaseParts.flatten [0x7F, 0xA0, 0xC3] := by
    refine .byte (by decide) (by decide) (.byte (by decide) (by decide) ?_)
    exact .separator (by decide) (.separator (by decide) (.byte (by decide) (by decide) .nil))
  obtain ⟨-, spelled, dry⟩ := pullsInTurn_eq_textBytes mixedCaseParts
  exact ⟨spelling, spelled _ spelling, rfl, dry initial [0x37] rfl⟩

/-- A single digit is a byte where its run has ended, and waits at the end of the text. -/
example : textBytes [0x41, 0x20, 0x31, 0x32, 0x33, 0x2C, 0x34] = [0x0A, 0x12, 0x03] := by
  decide +kernel

end HexReader

end MidiTransport
