import SourceSurvey.Disk.Basic

/-! Walks over what stands below a path. A walk enters a directory if a condition on its path holds;
the directory it starts from is always entered, also over a link, and a walk that starts from a file
gives that file. Below its start it follows no link. What it cannot visit does not end a walk: the
fault takes its place among the files, and these come in the order in which the directories hold
them. -/

namespace SourceSurvey

open Text

/-- What a walk cannot visit: a directory that cannot be opened, by its path, or the rest of one
whose reading breaks off, which has no path. -/
structure WalkFault where
  path : Option Text
  fault : DiskFault
deriving DecidableEq, Repr

def WalkFault.message (f : WalkFault) : Text :=
  match f.path with
  | some path => "IO error for operation on ".toList ++ path ++ [':', ' '] ++ f.fault.message
  | none => f.fault.message

mutual

/-- The paths of the files of an entry at a path, and what cannot be visited there. -/
def Entry.walk (enters : Text → Bool) (path : Text) : Entry → List (Except WalkFault Text)
  | .file _ | .lockedFile _ => [.ok path]
  | .link _ => []
  | .lockedDir fault => [.error ⟨some path, fault⟩]
  | .dir entries => walkIn enters path entries
  | .torn entries fault => walkIn enters path entries ++ [.error ⟨none, fault⟩]

/-- The walks over the entries of the directory at a path. -/
def walkIn (enters : Text → Bool) (path : Text) : List (Text × Entry) → List (Except WalkFault Text)
  | [] => []
  | (name, entry) :: rest =>
    let here := Path.join path name
    (if entry.isDir && !enters here then [] else entry.walk enters here) ++ walkIn enters path rest

end

/-- The walk over what stands at a path. -/
def Disk.walk (disk : Disk) (enters : Text → Bool) (path : Text) : List (Except WalkFault Text) :=
  match disk.look path with
  | .error fault => [.error ⟨some path, fault⟩]
  | .ok here =>
    if here.entry.target?.isNone then here.entry.walk enters path
    else
      match disk.locate path with
      | .error fault => [.error ⟨some path, fault⟩]
      | .ok there => if there.entry.isDir then there.entry.walk enters path else []

end SourceSurvey
