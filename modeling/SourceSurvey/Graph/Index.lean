import SourceSurvey.Descriptor.Project
import SourceSurvey.Graph.Table
import SourceSurvey.Path.Normal

/-! Where a reference may lead: projects by the normal form of their descriptor path and of their
directory, and Maven projects by their coordinates. A directory stays with the first project in
it; every other key goes to the last project that has it. The normal form is that of the text of a
path unless another one is given: a survey gives the canonical path of whatever exists in its tree,
which without links is the same for every absolute path (`Disk.canonical_eq`). -/

namespace SourceSurvey.Graph

open Descriptor

structure Index where
  byDescriptor : Table Project
  byDir : Table Project
  byGav : Table Pom
  byGa : Table Pom

namespace Index

def empty : Index := ⟨[], [], [], []⟩

/-- A table with one more key, if there is one. -/
def putKey? {α : Type} (table : Table α) (key : Option Text) (value : α) : Table α :=
  match key with
  | none => table
  | some key => table.put key value

/-- The index with one more project. -/
def add (index : Index) (project : Project) (normal : Text → Text := Path.normalize) : Index :=
  let index := { index with
    byDescriptor := index.byDescriptor.put (normal project.path) project
    byDir := index.byDir.putNew (normal project.dir) project }
  match project with
  | .dotnet _ => index
  | .maven pom => { index with
      byGav := putKey? index.byGav pom.coordinates.gav? pom
      byGa := putKey? index.byGa pom.coordinates.ga? pom }

def ofProjects (projects : List Project) (normal : Text → Text := Path.normalize) : Index :=
  projects.foldl (fun index project => index.add project normal) empty

/-- The project with a descriptor path, or else in a directory. -/
def byPath? (index : Index) (path : Text) : Option Project :=
  (index.byDescriptor.get? path).or (index.byDir.get? path)

end Index

end SourceSurvey.Graph
