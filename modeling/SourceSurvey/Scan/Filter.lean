import SourceSurvey.Descriptor.Ecosystem
import SourceSurvey.Glob.Match
import SourceSurvey.Path.Basic

/-! Which files below a project are its sources. Of several reasons to leave a file out the first in
this order is told: build output above it, no source root above it, a foreign extension, and a
glob that matches its path below the project. -/

namespace SourceSurvey.Scan

open Text

inductive SkipReason where
  | buildOutput
  | outsideSourceRoot
  | unsupportedLanguage
  | excludedByGlob
deriving DecidableEq, Repr

namespace SkipReason

def name : SkipReason → Text
  | buildOutput => "build_output".toList
  | outsideSourceRoot => "outside_source_root".toList
  | unsupportedLanguage => "unsupported_language".toList
  | excludedByGlob => "excluded_by_glob".toList

def description : SkipReason → Text
  | buildOutput => "build output directory".toList
  | outsideSourceRoot => "outside source roots".toList
  | unsupportedLanguage => "not a source file of this project".toList
  | excludedByGlob => "excluded by pattern".toList

end SkipReason

/-- The language of a path by its extension. -/
def languageOf? (path : Text) : Option Language := (Path.extension? path).bind Language.ofExtension?

structure SourceFilter where
  dir : Text
  ecosystem : Ecosystem
  excludes : List Glob

namespace SourceFilter

/-- The part of a path below the project; a path elsewhere stands for itself. -/
def below (f : SourceFilter) (path : Text) : Text := (Path.relativeTo? f.dir path).getD path

/-- The path that globs are matched against. -/
def relativePath (f : SourceFilter) (path : Text) : Text := Path.display (f.below path)

/-- Whether a path names a directory of build output. -/
def isOutputDir (f : SourceFilter) (path : Text) : Bool :=
  (Path.fileName? path).any f.ecosystem.outputDirs.contains

/-- Whether a directory of build output stands above a path. -/
def belowOutput (f : SourceFilter) (path : Text) : Bool :=
  ((Path.parent? (f.below path)).map Path.components).any fun components =>
    components.any fun
      | .name n => f.ecosystem.outputDirs.contains n
      | _ => false

def insideRoots (f : SourceFilter) (path : Text) : Bool :=
  f.ecosystem.sourceRoots.isEmpty || f.ecosystem.sourceRoots.any fun root =>
    Path.isBelow root (f.below path)

/-- Why a file is left out, or nothing for a source. -/
def skipReason? (f : SourceFilter) (path : Text) : Option SkipReason :=
  if f.belowOutput path then some .buildOutput
  else if !f.insideRoots path then some .outsideSourceRoot
  else if languageOf? path ≠ some f.ecosystem.language then some .unsupportedLanguage
  else if f.excludes.any fun glob => glob.isMatch (f.relativePath path) then some .excludedByGlob
  else none

end SourceFilter

end SourceSurvey.Scan
