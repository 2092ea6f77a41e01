import SourceSurvey.Graph.Index

/-! The relations between the projects of a list. Every reference gives an edge, whether or not it
leads to a project of the list; an edge that leads nowhere keeps the path or the coordinates that
were asked for. Edges come in the order of the projects and of the declarations in each. -/

namespace SourceSurvey.Graph

open Descriptor

structure ReferenceEdge where
  source : Text
  target : Text
  /-- Whether the target is a project of the list. -/
  resolved : Bool
  name : Option Text
  guid : Option Text
deriving DecidableEq, Repr

structure DependencyEdge where
  source : Text
  target : Text
  version : Option Text
  scope : Option Text
  /-- Whether the target is a project of the list. -/
  internal : Bool
deriving DecidableEq, Repr

structure ParentEdge where
  parent : Text
  child : Text
deriving DecidableEq, Repr

structure ModuleEdge where
  aggregator : Option Text
  path : Text
deriving DecidableEq, Repr

structure Relations where
  references : List ReferenceEdge
  dependencies : List DependencyEdge
  parents : List ParentEdge
  modules : List ModuleEdge
deriving DecidableEq, Repr

namespace Relations

def edgeCount (r : Relations) : Nat :=
  r.references.length + r.dependencies.length + r.parents.length + r.modules.length

end Relations

/-- The target of a dependency that has no coordinates. -/
def external : Text := "external".toList

/-! ### Edges of one project -/

def referenceEdge (index : Index) (project : Csproj) (reference : ProjectReference)
    (normal : Text → Text := Path.normalize) : ReferenceEdge :=
  let path := Path.resolveInclude project.dir reference.included normal
  match index.byPath? path with
  | some found => ⟨project.path, found.path, true, reference.name, reference.guid⟩
  | none => ⟨project.path, path, false, reference.name, reference.guid⟩

def packageEdge (project : Csproj) (package : PackageReference) : DependencyEdge :=
  ⟨project.path, package.name, package.version, none, false⟩

/-- A dependency leads to the project with its full coordinates, else to the one with its group and
artifact; it then has the version of that project. -/
def dependencyEdge (index : Index) (source : Text) (d : Dependency) : DependencyEdge :=
  match d.coordinates.gav?.bind fun gav => (index.byGav.get? gav).map (gav, ·) with
  | some (gav, found) => ⟨source, gav, found.coordinates.version, some d.scope, true⟩
  | none =>
    match d.coordinates.ga?.bind index.byGa.get? with
    | some found =>
      ⟨source, (found.coordinates.gav?.or d.coordinates.ga?).getD external,
        found.coordinates.version, some d.scope, true⟩
    | none => ⟨source, d.coordinates.ga?.getD external, d.coordinates.version, some d.scope, false⟩

def referencesOf (index : Index) (project : Project) (normal : Text → Text := Path.normalize) :
    List ReferenceEdge :=
  match project with
  | .dotnet p => p.projectReferences.map fun reference => referenceEdge index p reference normal
  | .maven _ => []

/-- Only a Maven project with full coordinates depends on something. -/
def dependenciesOf (index : Index) : Project → List DependencyEdge
  | .dotnet p => p.packageReferences.map (packageEdge p)
  | .maven p =>
    match p.coordinates.gav? with
    | none => []
    | some source => p.dependencies.map (dependencyEdge index source)

/-- A parent link needs full coordinates on both sides. -/
def parentsOf : Project → List ParentEdge
  | .dotnet _ => []
  | .maven p =>
    match p.parent.bind (·.coordinates.gav?), p.coordinates.gav? with
    | some parent, some child => [⟨parent, child⟩]
    | _, _ => []

def modulesOf (project : Project) (normal : Text → Text := Path.normalize) : List ModuleEdge :=
  match project with
  | .dotnet _ => []
  | .maven p => p.modules.map fun m => ⟨p.coordinates.gav?, Path.resolveInclude p.dir m normal⟩

/-- The relations between the projects of a list, with paths compared by a normal form. -/
def relations (projects : List Project) (normal : Text → Text := Path.normalize) : Relations :=
  let index := Index.ofProjects projects normal
  { references := projects.flatMap fun project => referencesOf index project normal
    dependencies := projects.flatMap (dependenciesOf index)
    parents := projects.flatMap parentsOf
    modules := projects.flatMap fun project => modulesOf project normal }

end SourceSurvey.Graph
