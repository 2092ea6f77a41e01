import SourceSurvey.Descriptor.Project

/-! What went wrong without ending a scan. Diagnostics are reported in the order of their paths by
bytes, then of the stages of a scan, then of their messages. -/

namespace SourceSurvey.Scan

open Text

inductive Stage where
  | discover
  | descriptor
  | read
deriving DecidableEq, Repr

namespace Stage

def rank : Stage → Nat
  | discover => 0
  | descriptor => 1
  | read => 2

def name : Stage → Text
  | discover => "discover".toList
  | descriptor => "descriptor".toList
  | read => "read".toList

def activity : Stage → Text
  | discover => "walking directories".toList
  | descriptor => "parsing descriptor".toList
  | read => "reading source file".toList

end Stage

structure Diagnostic where
  path : Text
  stage : Stage
  code : Text
  message : Text
deriving DecidableEq, Repr

namespace Diagnostic

/-- A descriptor that gave no project. -/
def ofDescriptor (e : DescriptorError) : Diagnostic := ⟨e.path, .descriptor, e.code, e.message⟩

/-- A source file that could not be read. -/
def unreadFile (path message : Text) : Diagnostic := ⟨path, .read, "MER-IO-002".toList, message⟩

/-- A directory that could not be walked. -/
def unwalked (path message : Text) : Diagnostic := ⟨path, .discover, "MER-IO-003".toList, message⟩

/-- A diagnostic on one line. -/
def display (d : Diagnostic) : Text :=
  ['['] ++ d.code ++ [']', ' '] ++ d.path ++ " while ".toList ++ d.stage.activity ++
    [':', ' '] ++ d.message

def le (a b : Diagnostic) : Bool :=
  if a.path ≠ b.path then Text.le a.path b.path
  else if a.stage ≠ b.stage then a.stage.rank ≤ b.stage.rank
  else Text.le a.message b.message

/-- Diagnostics in the order in which they are reported. -/
def sort (ds : List Diagnostic) : List Diagnostic := ds.mergeSort le

end Diagnostic

end SourceSurvey.Scan
