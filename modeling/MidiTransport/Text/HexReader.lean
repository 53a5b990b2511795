/-!
# Bytes written as hexadecimal text

Two hexadecimal digits in a row are a byte. A digit behind which the run of digits
ends is a byte too, and every other character only separates. The text may arrive
in parts: the digit that still waits for its partner is the whole state of a
`HexReader`, so a run of digits may be cut anywhere.
-/

namespace MidiTransport

/-- The value of an ASCII character that is a hexadecimal digit in either case. -/
def hexDigit? (character : UInt8) : Option UInt8 :=
  if 0x30 ≤ character && character ≤ 0x39 then some (character - 0x30)
  else if 0x41 ≤ character && character ≤ 0x46 then some (character - 0x37)
  else if 0x61 ≤ character && character ≤ 0x66 then some (character - 0x57)
  else none

/-- A reader of hexadecimal text. -/
structure HexReader where
  /-- The digit that has been read and is not yet part of a byte. -/
  pending : Option UInt8
  deriving DecidableEq, Repr

/-- The outcome of looking for one byte. -/
structure HexPull where
  reader : HexReader
  /-- The byte that was found. There is none if the text ran out. -/
  byte? : Option UInt8
  /-- The text that has not been read. -/
  rest : List UInt8

namespace HexReader

/-- A reader at the start of a text. -/
def initial : HexReader := ⟨none⟩

/-- Read one character. It completes a byte if it is the second digit of a pair, or
if it is no digit and ends a run of odd length. -/
def accept (reader : HexReader) (character : UInt8) : HexReader × Option UInt8 :=
  match hexDigit? character, reader.pending with
  | some low, some high => (⟨none⟩, some (high <<< 4 ||| low))
  | some digit, none => (⟨some digit⟩, none)
  | none, pending => (⟨none⟩, pending)

/-- Read up to the next byte. -/
def pull (reader : HexReader) : List UInt8 → HexPull
  | [] => ⟨reader, none, []⟩
  | character :: rest =>
    match reader.accept character with
    | (next, some byte) => ⟨next, some byte, rest⟩
    | (next, none) => next.pull rest

/-- All bytes of a text, and the reader behind it. -/
def decode (reader : HexReader) : List UInt8 → List UInt8 × HexReader
  | [] => ([], reader)
  | character :: rest =>
    let (next, byte?) := reader.accept character
    let (later, final) := next.decode rest
    (byte?.toList ++ later, final)

/-- Decoding is pulling until nothing is found. -/
theorem decode_eq_pull (reader : HexReader) (text : List UInt8) :
    reader.decode text =
      match (reader.pull text).byte? with
      | none => ([], (reader.pull text).reader)
      | some byte =>
        let (later, final) := (reader.pull text).reader.decode (reader.pull text).rest
        (byte :: later, final) := by
  induction text generalizing reader with
  | nil => rfl
  | cons character rest ih =>
    rw [decode, pull]
    cases accepted : reader.accept character with
    | mk next byte? =>
      cases byte? with
      | none => simpa using ih next
      | some byte => rfl

/-- Text in two parts reads like the joined text. -/
theorem decode_append (reader : HexReader) (front back : List UInt8) :
    reader.decode (front ++ back) =
      ((reader.decode front).1 ++ ((reader.decode front).2.decode back).1,
        ((reader.decode front).2.decode back).2) := by
  induction front generalizing reader with
  | nil => rfl
  | cons character rest ih => simp [decode, ih]

end HexReader

end MidiTransport
