import SourceSurvey.Path.Normal

/-! A tree of files as a value: files with their bytes, directories with their entries in some
order, and links to other paths. Files and directories may refuse to be opened, and the reading of a
directory may break off. A path is followed segment by segment from the root or from the current
directory; a parent segment goes up by the directory that was entered, every segment needs a
directory to stand in, and a link on the way is followed to where its target leads. -/

namespace SourceSurvey

open Text

/-! ### Entries -/

/-- Why the system does not give what is asked of a path. -/
inductive DiskFault where
  | missing
  | notDirectory
  | isDirectory
  | tooManyLinks
  /-- Any other refusal, with its text and its number. -/
  | refused (reason : Text) (number : Nat)
deriving DecidableEq, Repr

namespace DiskFault

def message : DiskFault → Text
  | missing => "No such file or directory (os error 2)".toList
  | notDirectory => "Not a directory (os error 20)".toList
  | isDirectory => "Is a directory (os error 21)".toList
  | tooManyLinks => "Too many levels of symbolic links (os error 40)".toList
  | refused reason number => reason ++ " (os error ".toList ++ Nat.toDigits 10 number ++ [')']

end DiskFault

inductive Entry where
  | file (bytes : List UInt8)
  | dir (entries : List (Text × Entry))
  /-- A directory whose reading breaks off behind some of its entries. -/
  | torn (entries : List (Text × Entry)) (fault : DiskFault)
  | link (target : Text)
  /-- A file that cannot be opened. -/
  | lockedFile (fault : DiskFault)
  /-- A directory that cannot be opened; what it holds is not seen. -/
  | lockedDir (fault : DiskFault)

namespace Entry

def isDir : Entry → Bool
  | dir _ | torn .. | lockedDir _ => true
  | file _ | link _ | lockedFile _ => false

/-- The entries that are seen of a directory; nothing else has any. -/
def entries : Entry → List (Text × Entry)
  | dir entries | torn entries _ => entries
  | _ => []

def entry? (name : Text) (e : Entry) : Option Entry :=
  (e.entries.find? fun child => child.1 = name).map (·.2)

/-- What keeps everybody out of a directory. -/
def lock? : Entry → Option DiskFault
  | lockedDir fault => some fault
  | _ => none

/-- Where a link leads. -/
def target? : Entry → Option Text
  | link target => some target
  | _ => none

/-- What a read gives. A link is followed before it is read. -/
def content : Entry → Except DiskFault (List UInt8)
  | file bytes => .ok bytes
  | lockedFile fault | lockedDir fault => .error fault
  | dir _ | torn .. => .error .isDirectory
  | link _ => .error .tooManyLinks

end Entry

/-! ### Routes -/

/-- How places are reached: the place one segment further, where a link stands for itself, the
target of the link at a place, and the place from which a target is followed. -/
structure Routing (σ : Type) where
  step : σ → Text → Except DiskFault σ
  target? : σ → Option Text
  start : σ → Text → σ

namespace Routing

variable {σ : Type} (r : Routing σ)

/-- Goes on along some segments. At a link `turn` takes over, with the place that holds the link,
its target and the segments behind it, except that a link at the very end may stay. The number of
links that may still be followed is returned with the place. -/
def along (stays : Bool) (links : Nat) (turn : σ → Text → List Text → Except DiskFault (σ × Nat)) :
    σ → List Text → Except DiskFault (σ × Nat)
  | here, [] => .ok (here, links)
  | here, segment :: rest => do
    let next ← r.step here segment
    match r.target? next with
    | none => along stays links turn next rest
    | some target => if stays && rest.isEmpty then .ok (next, links) else turn here target rest

/-- Goes along some segments and follows at most the given number of links. -/
def follow (stays : Bool) : Nat → σ → List Text → Except DiskFault (σ × Nat)
  | 0 => r.along stays 0 fun _ _ _ => .error .tooManyLinks
  | links + 1 => r.along stays (links + 1) fun here target rest =>
    if target = [] then .error .missing
    else follow stays links (r.start here target) (Path.segments target ++ rest)

end Routing

/-- How many links are followed for one path. -/
def linkLimit : Nat := 40

/-! ### Places -/

/-- A place in a tree: the names that lead to it, innermost first, each with the directory that
holds it, and the entry found there. -/
structure Location where
  above : List (Text × Entry)
  entry : Entry

namespace Location

/-- The place one segment further. A directory that cannot be opened can only be named. -/
def step (here : Location) (segment : Text) : Except DiskFault Location :=
  if !here.entry.isDir then .error .notDirectory
  else if segment = [] then .ok here
  else
    match here.entry.lock? with
    | some fault => .error fault
    | none =>
      if segment = ['.'] then .ok here
      else if segment = ['.', '.'] then
        match here.above with
        | [] => .ok here
        | (_, holder) :: above => .ok ⟨above, holder⟩
      else
        match here.entry.entry? segment with
        | some entry => .ok ⟨(segment, here.entry) :: here.above, entry⟩
        | none => .error .missing

/-- The absolute path of a place. -/
def path (here : Location) : Text :=
  match here.above with
  | [] => ['/']
  | above => above.reverse.flatMap fun step => '/' :: step.1

/-- Routes in a tree. An absolute target is followed from the root, any other from the directory
that holds the link. -/
def routing (root : Entry) : Routing Location where
  step := step
  target? here := here.entry.target?
  start here target := if Path.isAbsolute target then ⟨[], root⟩ else here

end Location

/-- The tree below the root, and the directory where relative paths start. -/
structure Disk where
  root : Entry
  current : Text

namespace Disk

/-- The place that a path leads to; a link at its end stays if it is asked to. -/
def follow (disk : Disk) (stays : Bool) (path : Text) : Except DiskFault Location :=
  if path = [] then .error .missing
  else
    ((Location.routing disk.root).follow stays linkLimit ⟨[], disk.root⟩
      (Path.segments (Path.join disk.current path))).map (·.1)

/-- The place that a path leads to. -/
def locate (disk : Disk) (path : Text) : Except DiskFault Location := disk.follow false path

/-- What a path names, be it a link. -/
def look (disk : Disk) (path : Text) : Except DiskFault Location := disk.follow true path

def read (disk : Disk) (path : Text) : Except DiskFault (List UInt8) := do
  (← disk.locate path).entry.content

def isDir (disk : Disk) (path : Text) : Bool :=
  match disk.locate path with
  | .ok here => here.entry.isDir
  | .error _ => false

/-- The canonical path of what a path leads to, and the normal form of one that leads nowhere. -/
def canonical (disk : Disk) (path : Text) : Text :=
  match disk.locate path with
  | .ok here => here.path
  | .error _ => Path.normalize path

end Disk

end SourceSurvey
