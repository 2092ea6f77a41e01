import SourceSurvey.Scan.Survey

/-! A survey report as plain text: the totals, a line for every project, the number of relations of
each kind, and a line for every diagnostic. Links to parents and modules are counted only where
there are some. -/

namespace SourceSurvey.Scan

open Text

/-- A number and what it counts. -/
def counted (n : Nat) (noun : String) : Text := Nat.toDigits 10 n ++ [' '] ++ noun.toList

/-- Counts on one line. -/
def enumerated (counts : List Text) : Text := [',', ' '].intercalate counts

def ProjectSummary.line (p : ProjectSummary) : Text :=
  "  [".toList ++ p.project.ecosystem.name ++ "] ".toList ++ p.project.displayName ++ [' ', ' '] ++
    p.project.path ++ "  (".toList ++
    enumerated [counted p.sources.fileCount "file(s)",
      counted p.sources.typeCount "type(s)"] ++ [')']

def relationLines (r : Graph.Relations) : List Text :=
  ["Relationships: ".toList ++
      enumerated [counted r.references.length "project reference(s)",
        counted r.dependencies.length "dependency edge(s)"] ++
      " (".toList ++ counted (r.dependencies.countP (·.internal)) "internal)"] ++
    if r.parents = [] ∧ r.modules = [] then []
    else [[' ', ' '] ++
      enumerated [counted r.parents.length "parent link(s)",
        counted r.modules.length "module inclusion(s)"]]

def diagnosticLines : List Diagnostic → List Text
  | [] => []
  | ds => ("Diagnostics: ".toList ++ Nat.toDigits 10 ds.length) :: ds.map fun d =>
      [' ', ' '] ++ d.display

def Report.lines (r : Report) : List Text :=
  ["Scanned ".toList ++ r.root ++ [':', ' '] ++
      enumerated [counted r.projects.length "project(s)", counted r.fileCount "file(s)",
        counted r.typeCount "type(s)"]] ++
    r.projects.map ProjectSummary.line ++ relationLines r.relations ++ diagnosticLines r.diagnostics

def Report.text (r : Report) : Text := ofLines r.lines

end SourceSurvey.Scan
