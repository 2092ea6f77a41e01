import SourceSurvey.Calendar.Moment
import SourceSurvey.CommandLine.Run
import Std.Time.DateTime.Timestamp

/-! The program. What a command can ask about is loaded into a tree, the run is planned over that
tree, and then its file is written and its texts are printed. What cannot be opened is loaded as
such. A link is loaded with the canonical path of what it leads to; what stands below that path is
loaded too if a source root can lie behind the link. -/

namespace SourceSurvey.CommandLine

open Text

/-! ### Trees -/

/-- Whether the bytes of a file can matter to a survey. -/
def isSurveyed (name : Text) : Bool :=
  (Scan.languageOf? name).isSome || Ecosystem.all.any fun e => e.isDescriptor name

/-- The tree of a file that was read under a path, with every directory passed on the way. -/
def treeOfFile (current path : Text) (bytes : List UInt8) : Disk :=
  let segments := splitAll (· = '/') (Path.join current path)
  let passed := (List.range segments.length).map fun n =>
    Path.names (Path.joinSegments (segments.take n))
  let holder := passed.foldl (fun e names => Entry.withDir names e) (Entry.dir [])
  ⟨holder.withFile (Path.names (Path.join current path)) bytes, current⟩

/-! ### Loading -/

/-- The refusal that an error of the system stands for. -/
def faultOf : IO.Error → DiskFault
  | .noFileOrDirectory .. => .missing
  | .alreadyExists _ code details | .interrupted _ code details | .invalidArgument _ code details
  | .permissionDenied _ code details | .resourceExhausted _ code details
  | .inappropriateType _ code details | .noSuchThing _ code details | .otherError code details
  | .resourceBusy code details | .resourceVanished code details | .unsupportedOperation code details
  | .hardwareFault code details | .unsatisfiedConstraints code details
  | .illegalOperation code details | .protocolError code details | .timeExpired code details =>
    .refused details.toList code.toNat
  | .unexpectedEof => .refused "unexpected end of file".toList 0
  | .userError message => .refused message.toList 0

/-- A link that was met on the way, by its name, and where it leads. -/
structure MetLink where
  name : Text
  target : Text

/-- Whether a source root can lie behind a link. -/
def MetLink.isOnTheWay (link : MetLink) : Bool :=
  Ecosystem.all.any fun e => e.sourceRoots.any fun root => (Path.segments root).contains link.name

/-- Loads entries and keeps the links among them. -/
abbrev Loader := StateT (List MetLink) IO

/-- A file under its name. -/
def loadFile (name : Text) (bytes : IO ByteArray) : Loader Entry := do
  if isSurveyed name then
    try return .file (← bytes).toList
    catch error => return .lockedFile (faultOf error)
  else return .file []

mutual

/-- A directory with the entries that the system gives. -/
partial def loadDir (entries : IO (Array IO.FS.DirEntry)) : Loader Entry := do
  try return .dir (← (← entries).toList.filterMapM loadEntry)
  catch error => return .lockedDir (faultOf error)

/-- An entry of a directory under its name. -/
partial def loadEntry (e : IO.FS.DirEntry) : Loader (Option (Text × Entry)) := do
  let name := e.fileName.toList
  match ← (e.path.symlinkMetadata : IO _).toBaseIO with
  | .error _ => return none
  | .ok metadata =>
    match metadata.type with
    | .dir => return some (name, ← loadDir e.path.readDir)
    | .file => return some (name, ← loadFile name (IO.FS.readBinFile e.path))
    | .symlink =>
      try
        let target := (← IO.FS.realPath e.path).toString.toList
        modify (⟨name, target⟩ :: ·)
        return some (name, .link target)
      catch _ => return some (name, .link [])
    | .other => return none

end

/-- The entry at a canonical path, of which only the kind is looked at if nothing below it can
matter. -/
def loadAt (whole : Bool) (path : Text) : Loader Entry := do
  let path ← IO.FS.realPath (String.ofList path)
  if !(← path.isDir) then return .file []
  else if whole then loadDir path.readDir
  else return .dir []

/-- Whether a canonical path is that of a directory or stands below it. -/
def isWithin (dir path : Text) : Bool := (Path.names dir).isPrefixOf (Path.names path)

/-- The tree with what some links lead to, as far as it is not loaded yet. -/
partial def loadTargets (loaded : List Text) (tree : Entry) : List MetLink → IO Entry
  | [] => return tree
  | link :: rest =>
    if loaded.any fun dir => isWithin dir link.target then loadTargets loaded tree rest
    else do
      let (entry, met) ← (loadAt link.isOnTheWay link.target).run []
      let put (old : Option Entry) : Entry := if link.isOnTheWay then entry else old.getD entry
      let loaded := if link.isOnTheWay then link.target :: loaded else loaded
      loadTargets loaded (Entry.alter put (Path.names link.target) (some tree)) (met ++ rest)

/-- The tree of everything below a root. -/
def loadRoot (current root : Text) : IO Disk := do
  let root := (← IO.FS.realPath (String.ofList root)).toString.toList
  let (entry, met) ← (loadAt true root).run []
  let tree := Entry.alter (fun _ => entry) (Path.names root) (some (.dir []))
  return ⟨← loadTargets [root] tree met, current⟩

/-- The tree that a command asks about, empty if there is none. -/
def loadFor (current : Text) : Except ArgumentError Command → IO Disk
  | .ok (.scan r) => try loadRoot current r.configuration.root catch _ => return ⟨.dir [], current⟩
  | .ok (.inspect r) =>
    try return treeOfFile current r.file (← IO.FS.readBinFile (String.ofList r.file)).toList
    catch _ => return ⟨.dir [], current⟩
  | _ => return ⟨.dir [], current⟩

/-- A command with the canonical path of its root, if there is one. -/
def onRealRoot : Except ArgumentError Command → IO (Except ArgumentError Command)
  | .ok (.scan r) =>
    try
      let path ← IO.FS.realPath (String.ofList r.configuration.root)
      return .ok (.scan { r with configuration.root := path.toString.toList })
    catch _ => return .ok (.scan r)
  | command => return command

/-! ### Runs -/

def beginSession : IO Session := do
  let now ← Std.Time.Timestamp.now
  let moment : Moment := ⟨now.toSecondsSinceUnixEpoch.toInt.toNat⟩
  let run := Nat.toDigits 16 moment.seconds ++ ['-'] ++ Nat.toDigits 16 (← IO.monoNanosNow)
  return ⟨moment.stated, moment.stamp, run, "unknown".toList⟩

/-- Carries a plan out on the real tree. -/
def perform : Plan → IO Outcome
  | .finish outcome => return outcome
  | .write path content written refused =>
    try
      IO.FS.writeFile (String.ofList path) (String.ofList content)
      return written
    catch _ => return refused

/-- Runs the program in the current directory and gives its exit code. -/
def runHere (arguments : List Text) : IO UInt32 := do
  let current := (← IO.currentDir).toString.toList
  let command ← onRealRoot (Command.read arguments)
  let disk ← loadFor current command
  let outcome ← perform (planFor (← beginSession) disk command)
  IO.print (String.ofList outcome.output)
  IO.eprint (String.ofList outcome.notices)
  return UInt32.ofNat outcome.exitCode

end SourceSurvey.CommandLine

def main (arguments : List String) : IO UInt32 :=
  SourceSurvey.CommandLine.runHere (arguments.map String.toList)
