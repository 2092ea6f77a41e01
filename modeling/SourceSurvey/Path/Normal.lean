import SourceSurvey.Path.Basic

/-! Normal forms of paths, found in the text of a path alone. Dots vanish, a parent component takes
the name before it away, is dropped at the root and stays where a relative path has no name left.
An include is read below the directory of its descriptor, with slashes of either kind. Where a tree
is at hand its canonical paths take the place of this normal form (`Disk.canonical`). -/

namespace SourceSurvey.Path

open Text

/-- The reduced path, last component first, after one more component. -/
def reduce : List Component → Component → List Component
  | taken, .current => taken
  | .name _ :: taken, .parent => taken
  | .root :: taken, .parent => .root :: taken
  | taken, .parent => .parent :: taken
  | taken, component => component :: taken

def normalComponents (path : Text) : List Component := ((components path).foldl reduce []).reverse

namespace Component

/-- A component as a segment; the root has none. -/
def segment : Component → Text
  | root => []
  | current => ['.']
  | parent => ['.', '.']
  | name n => n

end Component

/-- The path with the given components. -/
def ofComponents : List Component → Text
  | [.root] => ['/']
  | components => joinSegments (components.map Component.segment)

/-- The normal form of a path. -/
def normalize (path : Text) : Text := ofComponents (normalComponents path)

/-- An include read below a directory, in a normal form. -/
def resolveInclude (dir included : Text) (normal : Text → Text := normalize) : Text :=
  normal (join dir (display included))

end SourceSurvey.Path
