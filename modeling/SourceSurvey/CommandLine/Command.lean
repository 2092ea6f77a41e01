import SourceSurvey.CommandLine.Flag
import SourceSurvey.Scan.Survey

/-! What a list of arguments asks for. Flags without a command make a scan, and so does an empty
list. Of several values for one setting the last counts, while globs accumulate. -/

namespace SourceSurvey.CommandLine

open Text

/-! ### Formats -/

inductive OutputFormat where
  | human
  | json
deriving DecidableEq, Repr

namespace OutputFormat

def all : List OutputFormat := [.human, .json]

def name : OutputFormat → Text
  | human => "human".toList
  | json => "json".toList

/-- Every word that stands for a format. -/
def words : OutputFormat → List Text
  | human => ["human".toList, "text".toList]
  | json => ["json".toList]

/-- The format of a word in letters of either case. -/
def ofWord? (word : Text) : Option OutputFormat :=
  all.find? fun format => format.words.contains (word.map Char.toLower)

end OutputFormat

/-! ### Commands -/

structure ScanRequest where
  configuration : Scan.Configuration
  /-- Whether the files of a project may be read side by side; the report does not depend on it. -/
  inParallel : Bool
  /-- Where the report goes, if a path is given. -/
  out : Option Text
  /-- Whether the report is written without blanks. -/
  compact : Bool
  format : OutputFormat
deriving DecidableEq, Repr

/-- A scan of the current directory for every ecosystem. -/
def ScanRequest.standard : ScanRequest := ⟨⟨['.'], Ecosystem.all, []⟩, true, none, false, .human⟩

structure InspectRequest where
  file : Text
  format : OutputFormat
deriving DecidableEq, Repr

inductive Command where
  | scan (request : ScanRequest)
  | inspect (request : InspectRequest)
  | help
  | version
deriving DecidableEq, Repr

/-! ### Settings -/

/-- The format that a value names. -/
def readFormat (value : Text) : Except ArgumentError OutputFormat :=
  (OutputFormat.ofWord? value).elim (.error (.invalidFormat value)) .ok

/-- The ecosystems that a value names, alone or all at once. -/
def readEcosystems (value : Text) : Except ArgumentError (List Ecosystem) :=
  if value.map Char.toLower = "all".toList then .ok Ecosystem.all
  else (Ecosystem.ofWord? value).elim (.error (.invalidEcosystem value)) fun ecosystem =>
    .ok [ecosystem]

inductive ScanSetting where
  | root (path : Text)
  | out (path : Text)
  | ecosystems (ecosystems : List Ecosystem)
  | exclude (glob : Text)
  | compact
  | sequential
  | format (format : OutputFormat)
deriving DecidableEq, Repr

/-- The flags of a scan; `--dir` and `--root` are one. -/
def scanFlags : List (Text × Flag ScanSetting) :=
  [("--dir".toList, .valued fun value => .ok (.root value)),
    ("--root".toList, .valued fun value => .ok (.root value)),
    ("--out".toList, .valued fun value => .ok (.out value)),
    ("--ecosystem".toList, .valued fun value => (readEcosystems value).map .ecosystems),
    ("--exclude".toList, .valued fun value => .ok (.exclude value)),
    ("--compact".toList, .plain .compact),
    ("--sequential".toList, .plain .sequential),
    ("--output".toList, .valued fun value => (readFormat value).map .format)]

def ScanRequest.apply (r : ScanRequest) : ScanSetting → ScanRequest
  | .root path => { r with configuration.root := path }
  | .out path => { r with out := some path }
  | .ecosystems ecosystems => { r with configuration.ecosystems := ecosystems }
  | .exclude glob => { r with configuration.excludes := r.configuration.excludes ++ [glob] }
  | .compact => { r with compact := true }
  | .sequential => { r with inParallel := false }
  | .format format => { r with format := format }

inductive InspectSetting where
  | file (path : Text)
  | format (format : OutputFormat)
deriving DecidableEq, Repr

def inspectFlags : List (Text × Flag InspectSetting) :=
  [("--file".toList, .valued fun value => .ok (.file value)),
    ("--output".toList, .valued fun value => (readFormat value).map .format)]

/-! ### Reading -/

def readScan (arguments : List Text) : Except ArgumentError Command :=
  (readSettings scanFlags arguments).map fun settings =>
    .scan (settings.foldl ScanRequest.apply .standard)

/-- The last file of some settings and the last format, human text if there is none. -/
def inspectRequest? (settings : List InspectSetting) : Option InspectRequest :=
  let files := settings.filterMap fun | .file path => some path | .format _ => none
  let formats := settings.filterMap fun | .format format => some format | .file _ => none
  files.getLast?.map fun file => ⟨file, formats.getLastD .human⟩

def readInspect (arguments : List Text) : Except ArgumentError Command := do
  let settings ← readSettings inspectFlags arguments
  (inspectRequest? settings).elim (.error .missingFile) fun request => .ok (.inspect request)

/-- The command that a list of arguments asks for. -/
def Command.read : List Text → Except ArgumentError Command
  | [] => readScan []
  | word :: rest =>
    if word = "--version".toList ∨ word = "-V".toList then .ok .version
    else if word = "--help".toList ∨ word = "-h".toList ∨ word = "help".toList then .ok .help
    else if word = "scan".toList then readScan rest
    else if word = "inspect".toList then readInspect rest
    else if "--".toList.isPrefixOf word then readScan (word :: rest)
    else .error (.unknownCommand word)

end SourceSurvey.CommandLine
