import SourceSurvey.Report.SourceFields
import SourceSurvey.Scan.Aggregate

/-! The fields under which source summaries and diagnostics are reported. -/

namespace SourceSurvey.Scan

open Json Source

def ScopeSummary.toJson (s : ScopeSummary) : Value :=
  .record [field "files" (.texts s.files), field "types" (.ofList TypeDeclaration.toJson s.types)]

def SourceSummary.toJson (s : SourceSummary) : Value :=
  .record [field "namespaces" (.object (s.scopes.map fun entry => (entry.1, entry.2.toJson))),
    field "file_count" (.number s.fileCount), fieldOf? "error" .text s.error]

def Diagnostic.fields (d : Diagnostic) : List (Option (Text × Value)) :=
  [field "path" (.text d.path), field "stage" (.text d.stage.name), field "code" (.text d.code),
    field "message" (.text d.message)]

def Diagnostic.toJson (d : Diagnostic) : Value := .record d.fields

end SourceSurvey.Scan
