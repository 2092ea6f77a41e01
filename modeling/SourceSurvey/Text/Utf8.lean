import SourceSurvey.Text.Basic

/-! Text as UTF-8 bytes and back. Every maximal start of a sequence that cannot go on to a character
gives one replacement character, so decoding never fails. -/

namespace SourceSurvey.Text

def replacement : Char := '\uFFFD'

/-- A sequence that has begun: the bits so far, how many bytes are owed, and the bounds of the next.
-/
structure Sequence where
  bits : Nat
  owed : Nat
  low : Nat
  high : Nat
deriving DecidableEq, Repr

/-- What a byte that begins a character leads to. -/
def beginSequence (byte : Nat) : Text × Option Sequence :=
  if byte < 0x80 then ([Char.ofNat byte], none)
  else if 0xC2 ≤ byte ∧ byte ≤ 0xDF then ([], some ⟨byte - 0xC0, 1, 0x80, 0xBF⟩)
  else if byte = 0xE0 then ([], some ⟨0, 2, 0xA0, 0xBF⟩)
  else if byte = 0xED then ([], some ⟨0xD, 2, 0x80, 0x9F⟩)
  else if 0xE1 ≤ byte ∧ byte ≤ 0xEF then ([], some ⟨byte - 0xE0, 2, 0x80, 0xBF⟩)
  else if byte = 0xF0 then ([], some ⟨0, 3, 0x90, 0xBF⟩)
  else if 0xF1 ≤ byte ∧ byte ≤ 0xF3 then ([], some ⟨byte - 0xF0, 3, 0x80, 0xBF⟩)
  else if byte = 0xF4 then ([], some ⟨4, 3, 0x80, 0x8F⟩)
  else ([replacement], none)

/-- The characters that a byte completes and the sequence it leaves open. -/
def acceptByte (begun : Option Sequence) (byte : Nat) : Text × Option Sequence :=
  match begun with
  | none => beginSequence byte
  | some s =>
    if s.low ≤ byte ∧ byte ≤ s.high then
      let bits := s.bits * 64 + (byte - 0x80)
      if s.owed = 1 then ([Char.ofNat bits], none) else ([], some ⟨bits, s.owed - 1, 0x80, 0xBF⟩)
    else
      let (after, next) := beginSequence byte
      (replacement :: after, next)

def decodeFrom : Option Sequence → List UInt8 → Text
  | none, [] => []
  | some _, [] => [replacement]
  | begun, byte :: rest =>
    let (characters, next) := acceptByte begun byte.toNat
    characters ++ decodeFrom next rest

/-- The bytes of a text. -/
def encode (t : Text) : List UInt8 := t.flatMap String.utf8EncodeChar

/-- The text of some bytes. -/
def decode (bytes : List UInt8) : Text := decodeFrom none bytes

end SourceSurvey.Text
