import SourceSurvey.Scan.Diagnostic
import SourceSurvey.Source.Declaration

/-! The sources of a project by scope. Files keep their order within a scope, and the scopes are in
the order of their keys. A file that could not be read is listed, adds no types and gives a
diagnostic. -/

namespace SourceSurvey.Scan

open Text Source

/-- The files of one scope and their types. -/
structure ScopeSummary where
  files : List Text
  types : List TypeDeclaration
deriving DecidableEq, Repr

namespace ScopeSummary

def empty : ScopeSummary := ⟨[], []⟩

def add (s : ScopeSummary) (f : FileSummary) : ScopeSummary :=
  ⟨s.files ++ [f.path], if f.error.isSome then s.types else s.types ++ f.types⟩

end ScopeSummary

structure SourceSummary where
  /-- In the order of the keys, each key once. -/
  scopes : List (Text × ScopeSummary)
  fileCount : Nat
  /-- Why the sources could not be listed. -/
  error : Option Text
deriving DecidableEq, Repr

/-- Adds a file under its key. -/
def addToScope (key : Text) (f : FileSummary) :
    List (Text × ScopeSummary) → List (Text × ScopeSummary)
  | [] => [(key, ScopeSummary.empty.add f)]
  | entry :: rest =>
    if entry.1 = key then (key, entry.2.add f) :: rest
    else if Text.le key entry.1 then (key, ScopeSummary.empty.add f) :: entry :: rest
    else entry :: addToScope key f rest

namespace SourceSummary

def empty : SourceSummary := ⟨[], 0, none⟩

def add (s : SourceSummary) (f : FileSummary) : SourceSummary :=
  { s with scopes := addToScope f.scopeKey f s.scopes, fileCount := s.fileCount + 1 }

/-- The number of types over all scopes. -/
def typeCount (s : SourceSummary) : Nat :=
  (s.scopes.map fun entry => entry.2.types.length).foldr (· + ·) 0

end SourceSummary

/-- The diagnostic of a file that could not be read. -/
def readDiagnostic? (f : FileSummary) : Option Diagnostic :=
  f.error.map (Diagnostic.unreadFile f.path)

/-- Files grouped by scope, with the diagnostics of those that could not be read. -/
def aggregate (files : List FileSummary) : SourceSummary × List Diagnostic :=
  (files.foldl SourceSummary.add .empty, files.filterMap readDiagnostic?)

end SourceSurvey.Scan
