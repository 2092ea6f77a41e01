import SourceSurvey.Text.Basic

/-! Paths with slashes. A path is kept as it is written; its meaning is the list of its components,
in which repeated and trailing slashes and inner dots leave no trace. A leading dot of a relative
path is a component of its own. Paths are ordered and compared component by component. -/

namespace SourceSurvey.Path

open Text

inductive Component where
  | root
  | current
  | parent
  | name (n : Text)
deriving DecidableEq, Repr

/-- The segments of a path as it is written. -/
def segments (path : Text) : List Text := splitAll (· = '/') path

/-- Segments that give no component. -/
def isSilent (segment : Text) : Bool := segment.isEmpty || segment = ['.']

/-- The part of a path that is neither slash nor dot at its start is cut into segments; the slash
or dot in front of it is returned beside them. -/
def split : Text → Text × List Text
  | '/' :: rest => (['/'], splitAll (· = '/') rest)
  | ['.'] => (['.'], [[]])
  | '.' :: '/' :: rest => (['.'], [] :: splitAll (· = '/') rest)
  | path => ([], splitAll (· = '/') path)

/-- The segments of a list with a slash between neighbours. -/
def joinSegments (segments : List Text) : Text := ['/'].intercalate segments

def headComponents (head : Text) : List Component :=
  if head = ['/'] then [.root] else if head = ['.'] then [.current] else []

def segmentComponent? (segment : Text) : Option Component :=
  if isSilent segment then none
  else if segment = ['.', '.'] then some .parent
  else some (.name segment)

/-- The components of a path in order. -/
def components (path : Text) : List Component :=
  headComponents (split path).1 ++ (split path).2.filterMap segmentComponent?

def isAbsolute (path : Text) : Bool := path.head? = some '/'

/-- Segments without the silent ones at the end. -/
def trimSegments (segments : List Text) : List Text := (segments.reverse.dropWhile isSilent).reverse

/-- The path without its last component, as it is written; the root and the empty path have none. -/
def parent? (path : Text) : Option Text :=
  let (head, segments) := split path
  match trimSegments segments with
  | [] => if head = ['.'] then some [] else none
  | kept => some (head ++ joinSegments (trimSegments kept.dropLast))

/-- A path below a directory; an absolute path stands for itself. -/
def join (dir path : Text) : Text :=
  if isAbsolute path then path
  else if dir = [] ∨ dir.getLast? = some '/' then dir ++ path
  else dir ++ ['/'] ++ path

/-- The last component, if it is a name. -/
def fileName? (path : Text) : Option Text :=
  match (components path).getLast? with
  | some (.name n) => some n
  | _ => none

/-- A file name cut at its last dot, unless the dot is its first character or there is none. -/
def cutAtDot? (name : Text) : Option (Text × Text) :=
  let last := (name.reverse.takeWhile (· ≠ '.')).reverse
  let stem := name.take (name.length - last.length - 1)
  if last.length = name.length ∨ stem = [] then none else some (stem, last)

def extension? (path : Text) : Option Text := ((fileName? path).bind cutAtDot?).map (·.2)

def fileStem? (path : Text) : Option Text :=
  (fileName? path).map fun name => ((cutAtDot? name).map (·.1)).getD name

/-- Segments behind the first `n` that give a component. -/
def dropNamed : Nat → List Text → List Text
  | 0, segments => segments
  | _ + 1, [] => []
  | n + 1, segment :: segments =>
    if isSilent segment then dropNamed (n + 1) segments else dropNamed n segments

/-- The path behind its first `n` components, as it is written. -/
def behind (n : Nat) (path : Text) : Text :=
  let (head, segments) := split path
  if n = 0 then head ++ joinSegments (trimSegments segments)
  else
    let taken := if head = [] then n else n - 1
    joinSegments (trimSegments ((dropNamed taken segments).dropWhile isSilent))

/-- Whether the components of `dir` come first in those of `path`. -/
def isBelow (dir path : Text) : Bool := (components dir).isPrefixOf (components path)

/-- What a path adds to a directory above it. -/
def relativeTo? (dir path : Text) : Option Text :=
  if isBelow dir path then some (behind (components dir).length path) else none

/-- A path with every backslash turned into a slash. -/
def display (path : Text) : Text := replaceChar '\\' '/' path

/-! ### Order -/

namespace Component

def rank : Component → Nat
  | root => 0
  | current => 1
  | parent => 2
  | name _ => 3

/-- The text of a name, empty for the other components. -/
def text : Component → Text
  | name n => n
  | _ => []

def le (a b : Component) : Bool := a.rank < b.rank || (a.rank = b.rank && Text.le a.text b.text)

end Component

def leComponents : List Component → List Component → Bool
  | [], _ => true
  | _ :: _, [] => false
  | a :: as, b :: bs => if a = b then leComponents as bs else a.le b

/-- Component order. -/
def le (a b : Text) : Bool := leComponents (components a) (components b)

end SourceSurvey.Path
