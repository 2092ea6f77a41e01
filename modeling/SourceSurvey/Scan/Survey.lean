import SourceSurvey.Graph.Relations
import SourceSurvey.Scan.Aggregate
import SourceSurvey.Scan.Discovery
import SourceSurvey.Source.Extraction
import SourceSurvey.Text.Utf8

/-! The survey of a tree: every descriptor below the root is read, every project it gives is listed
with its sources, and the projects are related to one another by the canonical paths of the tree.
Only an unusable root or a faulty glob ends a survey; what else goes wrong becomes a diagnostic. -/

namespace SourceSurvey.Scan

open Text Source

structure Configuration where
  root : Text
  ecosystems : List Ecosystem
  excludes : List Text
deriving DecidableEq, Repr

inductive ScanError where
  | rootNotFound (root : Text)
  | rootNotADirectory (root : Text)
  | invalidGlob (pattern : Text) (reason : Glob.GlobError)
deriving DecidableEq, Repr

namespace ScanError

def code : ScanError → Text
  | rootNotFound _ => "MER-IO-001".toList
  | rootNotADirectory _ => "MER-IO-004".toList
  | invalidGlob .. => "MER-CFG-001".toList

def message : ScanError → Text
  | rootNotFound root => "root directory does not exist: ".toList ++ root
  | rootNotADirectory root => "root is not a directory: ".toList ++ root
  | invalidGlob pattern reason =>
    "invalid exclude pattern '".toList ++ pattern ++ "': ".toList ++
      Glob.faultMessage pattern reason

end ScanError

/-! ### Reading -/

/-- The project that a descriptor on disk describes. -/
def readProject (disk : Disk) (ecosystem : Ecosystem) (path : Text) :
    Except DescriptorError Project :=
  match disk.read path with
  | .ok bytes => Project.parse ecosystem path (decode bytes)
  | .error fault => .error (.unreadable path fault.message)

/-- The summary of a source file on disk. -/
def readSummary (disk : Disk) (language : Language) (path : Text) : FileSummary :=
  match disk.read path with
  | .ok bytes => summarize language path (decode bytes)
  | .error fault => .failed path language fault.message

/-- The sources of some paths by scope. -/
def summarizeSources (disk : Disk) (language : Language) (paths : List Text) :
    SourceSummary × List Diagnostic :=
  aggregate (paths.map (readSummary disk language))

/-! ### Projects -/

/-- A project and its sources. -/
structure ProjectSummary where
  project : Project
  sources : SourceSummary
deriving DecidableEq, Repr

/-- The projects of some descriptors and the diagnostics of those that give none. -/
def readProjects (disk : Disk) (found : List FoundDescriptor) : List Project × List Diagnostic :=
  let read := found.map fun d => readProject disk d.ecosystem d.path
  (read.filterMap fun | .ok project => some project | .error _ => none,
    read.filterMap fun | .ok _ => none | .error e => some (.ofDescriptor e))

/-- A project with its sources, and the diagnostics of listing and reading them. -/
def surveyProject (disk : Disk) (excludes : List Glob) (project : Project) :
    ProjectSummary × List Diagnostic :=
  let filter : SourceFilter := ⟨project.dir, project.ecosystem, excludes⟩
  let listing := filter.sources disk
  let (summary, unread) := summarizeSources disk project.ecosystem.language listing.found
  let error := listing.diagnostics.head?.map (·.message)
  (⟨project, { summary with error := error }⟩, listing.diagnostics ++ unread)

/-! ### Reports -/

structure Report where
  root : Text
  projects : List ProjectSummary
  relations : Graph.Relations
  diagnostics : List Diagnostic
deriving DecidableEq, Repr

namespace Report

def fileCount (r : Report) : Nat := (r.projects.map (·.sources.fileCount)).foldr (· + ·) 0

def typeCount (r : Report) : Nat := (r.projects.map (·.sources.typeCount)).foldr (· + ·) 0

end Report

/-- The canonical path of a root that can be surveyed. -/
def resolveRoot (disk : Disk) (root : Text) : Except ScanError Text :=
  match disk.locate root with
  | .error _ => .error (.rootNotFound root)
  | .ok here => if here.entry.isDir then .ok here.path else .error (.rootNotADirectory here.path)

/-- The survey of a directory under its canonical path. -/
def surveyFrom (disk : Disk) (root : Text) (ecosystems : List Ecosystem)
    (excludes : List Glob) : Report :=
  let discovered := discover disk root ecosystems
  let (projects, malformed) := readProjects disk discovered.found
  let surveyed := projects.map (surveyProject disk excludes)
  { root := root
    projects := surveyed.map (·.1)
    relations := Graph.relations projects disk.canonical
    diagnostics := Diagnostic.sort (discovered.diagnostics ++ malformed ++ surveyed.flatMap (·.2)) }

/-- The survey of a tree; the root is looked at before the globs. -/
def survey (disk : Disk) (configuration : Configuration) : Except ScanError Report := do
  let root ← resolveRoot disk configuration.root
  match Glob.parseAll configuration.excludes with
  | .error (pattern, reason) => throw (.invalidGlob pattern reason)
  | .ok excludes => return surveyFrom disk root configuration.ecosystems excludes

end SourceSurvey.Scan
