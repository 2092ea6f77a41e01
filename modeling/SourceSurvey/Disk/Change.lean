import SourceSurvey.Disk.Basic

/-! Changes to a tree. An entry is put at a list of names by making the directories on the way; a
write stores a file in a directory that exists, in place of the file of that name if there is one
and where a link of that name leads. -/

namespace SourceSurvey

open Text

/-- The entries of a directory after the entry of a name is set; a new name comes last. -/
def putEntry (name : Text) (entry : Entry) : List (Text × Entry) → List (Text × Entry)
  | [] => [(name, entry)]
  | e :: rest => if e.1 = name then (name, entry) :: rest else e :: putEntry name entry rest

namespace Entry

/-- A directory with other entries, read as far as before. -/
def withEntries (entries : List (Text × Entry)) : Entry → Entry
  | torn _ fault => torn entries fault
  | _ => dir entries

/-- The entry after the one at some names below it is changed; what is missing on the way becomes
a directory. -/
def alter (change : Option Entry → Entry) : List Text → Option Entry → Entry
  | [], entry => change entry
  | name :: names, entry =>
    let holder := entry.getD (.dir [])
    holder.withEntries (putEntry name (alter change names (holder.entry? name)) holder.entries)

/-- The entry with a directory at some names. -/
def withDir (names : List Text) (e : Entry) : Entry := alter (·.getD (.dir [])) names (some e)

/-- The entry with a file at some names. -/
def withFile (names : List Text) (bytes : List UInt8) (e : Entry) : Entry :=
  alter (fun _ => .file bytes) names (some e)

end Entry

/-- The names on the normal form of a path. -/
def Path.names (path : Text) : List Text :=
  (normalComponents path).filterMap fun
    | .name n => some n
    | _ => none

namespace Location

/-- The whole tree with another entry in place of the one found. -/
def rebuild (here : Location) (entry : Entry) : Entry :=
  here.above.foldl
    (fun entry step => step.2.withEntries (putEntry step.1 entry step.2.entries)) entry

/-- The directory and the name under which some segments let a file be written. A link under that
name leads on, and segments that end in a slash or in a dot segment name no file. -/
def opening (root : Entry) : Nat → Location → List Text → Except DiskFault (Location × Text)
  | 0, _, _ => .error .tooManyLinks
  | links + 1, start, segments => do
    let name := segments.getLastD []
    let (here, _) ← (routing root).follow false links start segments.dropLast
    if !here.entry.isDir then throw .notDirectory
    else if Path.isSilent name || name = ['.', '.'] then throw .isDirectory
    else
      match here.entry.lock? with
      | some fault => throw fault
      | none =>
        match (here.entry.entry? name).bind Entry.target? with
        | some target =>
            opening root links ((routing root).start here target) (Path.segments target)
        | none => return (here, name)

end Location

namespace Disk

/-- The tree with a file in a directory. -/
def writeIn (disk : Disk) (here : Location) (name : Text) (bytes : List UInt8) :
    Except DiskFault Disk :=
  let written := here.entry.withEntries (putEntry name (.file bytes) here.entry.entries)
  match here.entry.entry? name with
  | some (.lockedFile fault) => .error fault
  | some entry => if entry.isDir then .error .isDirectory else
      .ok { disk with root := here.rebuild written }
  | none => .ok { disk with root := here.rebuild written }

/-- The tree after a write. -/
def write (disk : Disk) (path : Text) (bytes : List UInt8) : Except DiskFault Disk := do
  let segments := Path.segments (Path.join disk.current path)
  let (here, name) ← Location.opening disk.root (linkLimit + 1) ⟨[], disk.root⟩ segments
  disk.writeIn here name bytes

end Disk

end SourceSurvey
