import SourceSurvey.Text.Basic

/-! Places in one source text. A member belongs to the last type header that starts at or before
it, and a line number counts the line starts at or before an offset. Both look into a table of
increasing starts and take the last entry that is not past the offset. -/

namespace SourceSurvey.Source

/-- The starts of the types of a file, each with its index, in increasing order. -/
structure Ownership where
  starts : List (Nat × Nat)

namespace Ownership

def startsBefore (a b : Nat × Nat) : Bool := a.1 < b.1 || (a.1 = b.1 && a.2 ≤ b.2)

/-- The table of starts that are given by index. -/
def ofStarts (starts : List Nat) : Ownership := ⟨starts.zipIdx.mergeSort startsBefore⟩

/-- The index of the type that owns an offset. -/
def ownerOf? (o : Ownership) (offset : Nat) : Option Nat :=
  ((o.starts.takeWhile (·.1 ≤ offset)).getLast?).map (·.2)

def isEmpty (o : Ownership) : Bool := o.starts.isEmpty

end Ownership

/-- Offsets of the lines that begin behind the newlines of a text at the given offset. -/
def lineStartsFrom : Nat → Text → List Nat
  | _, [] => []
  | offset, c :: rest =>
    let next := offset + c.utf8Size
    if c = '\n' then next :: lineStartsFrom next rest else lineStartsFrom next rest

/-- The offsets at which the lines of a text begin. -/
structure LineTable where
  starts : List Nat

namespace LineTable

def ofText (t : Text) : LineTable := ⟨0 :: lineStartsFrom 0 t⟩

/-- The number of the line that holds an offset, counted from one. -/
def lineOf (table : LineTable) (offset : Nat) : Nat := (table.starts.takeWhile (· ≤ offset)).length

end LineTable

end SourceSurvey.Source
