import SourceSurvey.Text.Basic

/-! Lists written between commas. The depth of a place counts the angle brackets opened and not
closed before it and never falls below zero; a comma separates two entries exactly at depth zero.
A default value starts at the first equals sign that no bracket of any kind encloses. -/

namespace SourceSurvey.Source

open Text

/-- The angle bracket depth behind a character. -/
def angleDepth (depth : Nat) (c : Char) : Nat :=
  if c = '<' then depth + 1 else if c = '>' then depth - 1 else depth

/-- The texts between the commas at depth zero; always at least one. -/
def piecesFrom : Nat → Text → List Text
  | _, [] => [[]]
  | depth, c :: rest =>
    if c = ',' ∧ depth = 0 then [] :: piecesFrom 0 rest
    else (piecesFrom (angleDepth depth c) rest).modifyHead (c :: ·)

/-- The entries of a parameter list: its trimmed pieces without the empty ones. -/
def splitParameters (t : Text) : List Text := ((piecesFrom 0 t).map trim).filter (· ≠ [])

/-- The entries of an optional clause, with single spaces. -/
def splitClause : Option Text → List Text
  | none => []
  | some t => ((splitParameters t).map collapse).filter (· ≠ [])

/-- The depth behind a character over all three kinds of brackets. -/
def bracketDepth (depth : Nat) (c : Char) : Nat :=
  if c = '<' ∨ c = '(' ∨ c = '[' then depth + 1
  else if c = '>' ∨ c = ')' ∨ c = ']' then depth - 1
  else depth

/-- The text before the first equals sign at depth zero. -/
def beforeDefault? : Nat → Text → Option Text
  | _, [] => none
  | depth, c :: rest =>
    if c = '=' ∧ depth = 0 then some []
    else (beforeDefault? (bracketDepth depth c) rest).map (c :: ·)

/-- A parameter without its default value. -/
def stripDefault (t : Text) : Text :=
  match beforeDefault? 0 t with
  | some start => trimEnd start
  | none => t

end SourceSurvey.Source
