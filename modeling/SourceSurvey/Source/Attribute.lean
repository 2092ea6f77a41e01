import SourceSurvey.Text.Cursor

/-! Attributes around a declaration. Those above it stand on lines of their own, with only blank
lines between; those on its line either follow an at sign or sit in square brackets that are still
open; those of a parameter are the bracketed groups in front of it. -/

namespace SourceSurvey.Source

open Text

/-- The attribute lines that end a text, nearest first, given the end of its last line; the text is
given nearest character first. Blank lines are passed over, any other line ends the reading. -/
def attributeLines (mark : Char) (ending : Text) : Text → List Text
  | [] =>
    let line := trim ending
    if line.head? = some mark then [line] else []
  | c :: before =>
    if c = '\n' then
      let line := trim ending
      if line = [] then attributeLines mark [] before
      else if line.head? = some mark then line :: attributeLines mark [] before
      else []
    else attributeLines mark (c :: ending) before

/-- The attribute lines directly above a place, from the top down, given the text before the place.
-/
def attributesAbove (mark : Char) (before : Text) : List Text :=
  match before.dropWhile (· ≠ '\n') with
  | [] => []
  | _ :: above => (attributeLines mark [] above).reverse

/-- The attribute lines directly above the line of an offset, from the top down. -/
def leadingAttributes (t : Text) (offset : Nat) (mark : Char) : List Text :=
  attributesAbove mark (t.back offset)

/-- The number of square brackets open behind a character. -/
def squareDepth (depth : Nat) (c : Char) : Nat :=
  if c = '[' then depth + 1 else if c = ']' then depth - 1 else depth

/-- Whether a place is inside an attribute, given the text before it: directly after an at sign, or
within square brackets that are open on its line. -/
def endsInAttribute (before : Text) : Bool :=
  let line := before.takeWhile (· ≠ '\n')
  line.head? = some '@' || 0 < line.reverse.foldl squareDepth 0

def insideAttribute (t : Text) (offset : Nat) : Bool := endsInAttribute (t.back offset)

/-- The bracketed groups in front of a text and what follows them, given the depth inside the
group being read and its characters so far. A group that never closes belongs to the rest. -/
def takeGroupsFrom : Nat → Text → Text → List Text × Text
  | 0, _, [] => ([], [])
  | 0, _, c :: rest =>
    if isBlank c then takeGroupsFrom 0 [] rest
    else if c = '[' then takeGroupsFrom 1 ['['] rest
    else ([], c :: rest)
  | _ + 1, group, [] => ([], group)
  | depth + 1, group, c :: rest =>
    if c = ']' ∧ depth = 0 then
      let (groups, remains) := takeGroupsFrom 0 [] rest
      ((group ++ [c]) :: groups, remains)
    else takeGroupsFrom (squareDepth (depth + 1) c) (group ++ [c]) rest

/-- The bracketed groups in front of a text and the text behind them. -/
def takeGroups (t : Text) : List Text × Text := takeGroupsFrom 0 [] t

end SourceSurvey.Source
