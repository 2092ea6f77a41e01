import SourceSurvey.Text.Basic
import SourceSurvey.Text.Ranges

/-! Word characters. A pattern's word character is a letter, mark, decimal digit, connector or
join control; the alphanumeric class leaves out connectors, joiners and the marks that are no
letters, but takes every kind of number. Word edges are told by the first class, and the word
before an offset by the second. -/

namespace SourceSurvey.Text

/-- Whether one of some ranges in increasing order holds a number. -/
def inRanges : List (Nat × Nat) → Nat → Bool
  | [], _ => false
  | (low, high) :: rest, n => if n < low then false else n ≤ high || inRanges rest n

/-- A character that may stand inside a word. -/
def isWord (c : Char) : Bool :=
  if c.toNat < 0x80 then c.isAlphanum || c = '_'
  else inRanges wordRanges c.toNat

/-- A letter or a number of any kind. -/
def isAlphanumeric (c : Char) : Bool :=
  if c.toNat < 0x80 then c.isAlphanum
  else inRanges alphanumericRanges c.toNat

/-- An ASCII letter or an underscore. -/
def isNameStart (c : Char) : Bool := c.isAlpha || c = '_'

end SourceSurvey.Text
