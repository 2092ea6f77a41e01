import SourceSurvey.CommandLine.Command
import SourceSurvey.CommandLine.Usage
import SourceSurvey.Disk.Change
import SourceSurvey.Report.Outline
import SourceSurvey.Report.SurveyFields
import SourceSurvey.Report.SurveyText

/-! Runs of the program. A run reads a tree, writes at most one file, and ends with an exit code and
two texts. Its plan is fixed before anything is written: it says what to write and how the run ends
whether or not the write succeeds. -/

namespace SourceSurvey.CommandLine

open Text

/-- What a run takes from its surroundings besides the tree. -/
structure Session where
  /-- The time as a report states it. -/
  time : Text
  /-- The time as the name of a report holds it. -/
  stamp : Text
  /-- What tells this run from others. -/
  run : Text
  /-- What the program was built from. -/
  build : Text

/-- How a run ends, and what it prints as its result and beside it. -/
structure Outcome where
  exitCode : Nat
  output : Text
  notices : Text
deriving DecidableEq, Repr

/-- A run that fails after some notices. -/
def Outcome.failure (exitCode : Nat) (notices message : Text) : Outcome :=
  ⟨exitCode, [], notices ++ ofLines ["Error: ".toList ++ message]⟩

inductive Plan where
  | finish (outcome : Outcome)
  | write (path content : Text) (written refused : Outcome)

/-- The end of a planned run and the tree that it leaves. -/
def Plan.carryOut (disk : Disk) : Plan → Outcome × Disk
  | .finish outcome => (outcome, disk)
  | .write path content written refused =>
    match disk.write path (encode content) with
    | .ok disk => (written, disk)
    | .error _ => (refused, disk)

/-! ### Scans -/

/-- The name of a report that is not given one. -/
def reportName (stamp : Text) : Text := "appinfo_".toList ++ stamp ++ ".json".toList

/-- Whether no descriptor was found; one that gave no project left a diagnostic. -/
def foundNothing (report : Scan.Report) : Bool :=
  report.projects.isEmpty && !report.diagnostics.any fun d => d.stage = .descriptor

def warnings (report : Scan.Report) : Text :=
  if foundNothing report then
    ofLines ["Warning: No project descriptors found under ".toList ++ report.root]
  else []

/-- A missing root has an exit code of its own. -/
def scanExitCode : Scan.ScanError → Nat
  | .rootNotFound _ => 2
  | _ => 1

/-- Writes a report; as JSON it is also the result, with the path among the notices. -/
def planReport (session : Session) (disk : Disk) (request : ScanRequest)
    (report : Scan.Report) : Plan :=
  let path := Path.join disk.current (request.out.getD (reportName session.stamp))
  let json := report.toJson session.time
  let wrote := ofLines ["Wrote ".toList ++ path]
  let written : Outcome :=
    match request.format with
    | .human => ⟨0, report.text ++ wrote, warnings report⟩
    | .json => ⟨0, ofLines [Json.pretty json], warnings report ++ wrote⟩
  .write path (if request.compact then Json.compact json else Json.pretty json) written
    (.failure 1 (warnings report) ("failed to write ".toList ++ path))

def planScan (session : Session) (disk : Disk) (request : ScanRequest) : Plan :=
  match Scan.survey disk request.configuration with
  | .ok report => planReport session disk request report
  | .error e => .finish (.failure (scanExitCode e) [] e.message)

/-! ### Single files -/

/-- The outline of a source file, or its declarations as JSON. -/
def planInspect (session : Session) (disk : Disk) (request : InspectRequest) : Outcome :=
  match Scan.languageOf? request.file with
  | none =>
    .failure 1 []
      ("Unsupported file type: ".toList ++ request.file ++ " (expected .cs or .java)".toList)
  | some language =>
    match disk.read request.file with
    | .error _ => .failure 1 [] ("failed to read ".toList ++ request.file)
    | .ok bytes =>
      let summary := Source.summarize language request.file (decode bytes)
      match request.format with
      | .human => ⟨0, summary.outline, []⟩
      | .json => ⟨0, ofLines [Json.pretty (Report.response session.run summary.toJson)], []⟩

/-! ### Runs -/

/-- The plan of a run whose arguments are read. -/
def planFor (session : Session) (disk : Disk) : Except ArgumentError Command → Plan
  | .error e => .finish ⟨1, [], ofLines ["Error: ".toList ++ e.message, []] ++ usage⟩
  | .ok .help => .finish ⟨0, [], usage⟩
  | .ok .version => .finish ⟨0, ofLines [versionLine session.build], []⟩
  | .ok (.inspect request) => .finish (planInspect session disk request)
  | .ok (.scan request) => planScan session disk request

/-- The plan of a run with some arguments. -/
def plan (session : Session) (disk : Disk) (arguments : List Text) : Plan :=
  planFor session disk (Command.read arguments)

/-- The end of a run and the tree that it leaves. -/
def run (session : Session) (disk : Disk) (arguments : List Text) : Outcome × Disk :=
  (plan session disk arguments).carryOut disk

end SourceSurvey.CommandLine
