import SourceSurvey.Disk.Walk
import SourceSurvey.Scan.Diagnostic
import SourceSurvey.Scan.Filter

/-! The descriptors below a directory and the sources of a project. Both are listed in component
order, each path once, whatever the order in which the directories hold their entries; the
diagnostics of what could not be visited come as the walks meet it. -/

namespace SourceSurvey.Scan

open Text

/-- What a walk found and what it could not visit. -/
structure Listing (α : Type) where
  found : List α
  diagnostics : List Diagnostic

/-- The diagnostic of what a walk cannot visit, under the path from which the walk started if the
fault has none. -/
def unvisited (start : Text) (f : WalkFault) : Diagnostic := .unwalked (f.path.getD start) f.message

/-- The files that a walk from a path finds, with a diagnostic for whatever it cannot visit. -/
def listFiles (disk : Disk) (enters : Text → Bool) (path : Text) : Listing Text :=
  let met := disk.walk enters path
  { found := met.filterMap fun | .ok file => some file | .error _ => none
    diagnostics := met.filterMap fun | .ok _ => none | .error fault => some (unvisited path fault) }

/-! ### Descriptors -/

/-- Directories in which no descriptor is looked for. -/
def ignoredDirs : List Text :=
  [".git".toList, ".hg".toList, ".svn".toList, "node_modules".toList, "target".toList]

structure FoundDescriptor where
  path : Text
  ecosystem : Ecosystem
deriving DecidableEq, Repr

namespace FoundDescriptor

def le (a b : FoundDescriptor) : Bool :=
  if Path.components a.path = Path.components b.path then a.ecosystem.le b.ecosystem
  else Path.le a.path b.path

end FoundDescriptor

/-- The ecosystems of a list for which a path is a descriptor. -/
def descriptorsAt (ecosystems : List Ecosystem) (path : Text) : List FoundDescriptor :=
  let name := (Path.fileName? path).getD path
  (ecosystems.filter fun e => e.isDescriptor name).map fun e => ⟨path, e⟩

/-- The descriptors below a root. -/
def discover (disk : Disk) (root : Text) (ecosystems : List Ecosystem) : Listing FoundDescriptor :=
  let files := listFiles disk (fun dir => !(Path.fileName? dir).any ignoredDirs.contains) root
  { found := sortedDistinct FoundDescriptor.le (files.found.flatMap (descriptorsAt ecosystems))
    diagnostics := files.diagnostics }

/-! ### Sources -/

namespace SourceFilter

/-- The source roots that exist, also where a link leads to one, or the project itself where it has
none of its own. -/
def walkRoots (disk : Disk) (f : SourceFilter) : List Text :=
  match f.ecosystem.sourceRoots with
  | [] => [f.dir]
  | roots => (roots.map (Path.join f.dir)).filter disk.isDir

/-- The sources of a project. -/
def sources (disk : Disk) (f : SourceFilter) : Listing Text :=
  let walks := (f.walkRoots disk).map (listFiles disk fun dir => !f.isOutputDir dir)
  let files := (walks.flatMap (·.found)).filter fun path => (f.skipReason? path).isNone
  ⟨sortedDistinct Path.le files, walks.flatMap (·.diagnostics)⟩

end SourceFilter

end SourceSurvey.Scan
