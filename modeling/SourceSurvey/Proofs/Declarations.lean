import SourceSurvey.Graph.Relations
import Mathlib.Data.List.Forall2

/-! What projects declare, and the edges that come of it. Every declaration gives one edge, in the
order of the projects and of the declarations in each, and nothing else does, so the numbers of
declarations add up to the number of edges. A Maven project whose group, artifact or version is not
known depends on nothing and is nobody's child, but it still includes its modules. -/

namespace SourceSurvey

/-! ### Full coordinates -/

namespace Descriptor.Coordinates

variable {c : Coordinates}

/-- Whether group, artifact and version are all known. -/
def isFull (c : Coordinates) : Bool := c.group.isSome && c.artifact.isSome && c.version.isSome

/-- A key is group, artifact and version with colons between them. -/
def IsSpelled (c : Coordinates) (key : Text) : Prop :=
  ∃ group artifact version, c = ⟨some group, some artifact, some version⟩ ∧
    key = group ++ ':' :: (artifact ++ ':' :: version)

theorem exists_gav?_of_isFull (h : c.isFull = true) : ∃ key, c.gav? = some key ∧
    c.IsSpelled key := by
  obtain ⟨_ | group, _ | artifact, _ | version⟩ := c
  case some.some.some => exact ⟨_, rfl, group, artifact, version, rfl, by simp [List.intercalate]⟩
  all_goals exact absurd h (by simp [isFull])

theorem gav?_of_not_isFull (h : c.isFull = false) : c.gav? = none := by
  obtain ⟨_ | group, _ | artifact, _ | version⟩ := c
  case some.some.some => exact absurd h (by simp [isFull])
  all_goals rfl

theorem isSpelled_of_gav? {key : Text} (h : c.gav? = some key) : c.IsSpelled key := by
  cases hf : c.isFull with
  | false => exact absurd ((gav?_of_not_isFull hf).symm.trans h) (by simp)
  | true =>
    obtain ⟨own, told, spelled⟩ := exists_gav?_of_isFull hf
    exact Option.some.inj (told.symm.trans h) ▸ spelled

end Descriptor.Coordinates

namespace Graph

open Descriptor

/-! ### Declarations -/

/-- What a project needs that it does not name by a path. -/
inductive Requirement where
  | package (project : Csproj) (package : PackageReference)
  | dependency (project : Pom) (dependency : Dependency)

def declaredReferences : Project → List (Csproj × ProjectReference)
  | .dotnet p => p.projectReferences.map (p, ·)
  | .maven _ => []

/-- Packages, and the dependencies of a Maven project with full coordinates. -/
def requirements : Project → List Requirement
  | .dotnet p => p.packageReferences.map (.package p)
  | .maven p => if p.coordinates.isFull then p.dependencies.map (.dependency p) else []

/-- The parent of a Maven project, if both have full coordinates. -/
def declaredParents : Project → List (PomParent × Pom)
  | .dotnet _ => []
  | .maven p =>
    if p.coordinates.isFull then (p.parent.toList.filter (·.coordinates.isFull)).map (·, p) else []

def declaredModules : Project → List (Pom × Text)
  | .dotnet _ => []
  | .maven p => p.modules.map (p, ·)

/-! ### Edges for declarations -/

structure ReferenceEdge.Declares (e : ReferenceEdge) (d : Csproj × ProjectReference) : Prop where
  source : e.source = d.1.path
  name : e.name = d.2.name
  guid : e.guid = d.2.guid

/-- A package stays what it is called; a dependency starts from the coordinates of its project. -/
def DependencyEdge.Declares (e : DependencyEdge) : Requirement → Prop
  | .package p package => e = ⟨p.path, package.name, package.version, none, false⟩
  | .dependency p d => p.coordinates.IsSpelled e.source ∧ e.scope = some d.scope

structure ParentEdge.Declares (e : ParentEdge) (d : PomParent × Pom) : Prop where
  parent : d.1.coordinates.IsSpelled e.parent
  child : d.2.coordinates.IsSpelled e.child

structure ModuleEdge.Declares (e : ModuleEdge) (d : Pom × Text) : Prop where
  aggregator : e.aggregator = d.1.coordinates.gav?
  path : e.path = Path.resolveInclude d.1.dir d.2

/-- The edges stand for the declarations of some projects, one for one and in their order. -/
structure Relations.Declares (r : Relations) (projects : List Project) : Prop where
  references :
    List.Forall₂ ReferenceEdge.Declares r.references (projects.flatMap declaredReferences)
  dependencies : List.Forall₂ DependencyEdge.Declares r.dependencies (projects.flatMap requirements)
  parents : List.Forall₂ ParentEdge.Declares r.parents (projects.flatMap declaredParents)
  modules : List.Forall₂ ModuleEdge.Declares r.modules (projects.flatMap declaredModules)
  edgeCount :
    r.edgeCount = (projects.flatMap declaredReferences).length +
      (projects.flatMap requirements).length +
    (projects.flatMap declaredParents).length + (projects.flatMap declaredModules).length

/-! ### One project, and all of them -/

/-- What stands side by side for each element stands so for the whole list. -/
theorem forall₂_flatMap {α β γ : Type} {R : β → γ → Prop} {f : α → List β} {g : α → List γ}
    (h : ∀ a, List.Forall₂ R (f a) (g a)) (l : List α) :
    List.Forall₂ R (l.flatMap f) (l.flatMap g) := by
  induction l with
  | nil => exact .nil
  | cons a l ih => exact List.rel_append (h a) ih

/-- Two readings of one list stand side by side. -/
theorem forall₂_map_map {α β γ : Type} {R : β → γ → Prop} {f : α → β} {g : α → γ}
    (h : ∀ a, R (f a) (g a)) (l : List α) :
    List.Forall₂ R (l.map f) (l.map g) := by
  rw [List.forall₂_map_left_iff, List.forall₂_map_right_iff, List.forall₂_same]
  exact fun a _ => h a

section Projects

variable (index : Index) (projects : List Project)

/-- The edges of references are those of the declared ones. -/
theorem forall₂_referencesOf {R : ReferenceEdge → Csproj × ProjectReference → Prop}
    (h : ∀ p reference, R (referenceEdge index p reference) (p, reference)) :
    List.Forall₂ R (projects.flatMap (referencesOf index))
      (projects.flatMap declaredReferences) := by
  refine forall₂_flatMap (fun project => ?_) projects
  cases project with
  | dotnet p => exact forall₂_map_map (h p) p.projectReferences
  | maven _ => exact .nil

/-- The edges of dependencies are those of packages, and those of dependencies that start from full
coordinates. -/
theorem forall₂_dependenciesOf {R : DependencyEdge → Requirement → Prop}
    (hp : ∀ p package, R (packageEdge p package) (.package p package))
    (hd : ∀ p source d, p.coordinates.gav? = some source →
    R (dependencyEdge index source d) (.dependency p d)) :
    List.Forall₂ R (projects.flatMap (dependenciesOf index)) (projects.flatMap requirements) := by
  refine forall₂_flatMap (fun project => ?_) projects
  cases project with
  | dotnet p => exact forall₂_map_map (hp p) p.packageReferences
  | maven p =>
    rw [dependenciesOf, requirements]
    cases hf : p.coordinates.isFull with
    | false =>
      rw [Coordinates.gav?_of_not_isFull hf]
      exact .nil
    | true =>
      obtain ⟨source, told, -⟩ := Coordinates.exists_gav?_of_isFull hf
      rw [told]
      exact forall₂_map_map (fun d => hd p source d told) p.dependencies

theorem forall₂_parentsOf :
    List.Forall₂ ParentEdge.Declares (projects.flatMap parentsOf)
      (projects.flatMap declaredParents) := by
  refine forall₂_flatMap (fun project => ?_) projects
  cases project with
  | dotnet _ => exact .nil
  | maven p =>
    rw [parentsOf, declaredParents]
    cases hc : p.coordinates.isFull with
    | false =>
      rw [Coordinates.gav?_of_not_isFull hc]
      cases p.parent.bind (·.coordinates.gav?) <;> exact .nil
    | true =>
      obtain ⟨child, ofChild, spelledChild⟩ := Coordinates.exists_gav?_of_isFull hc
      rw [ofChild]
      cases p.parent with
      | none => exact .nil
      | some parent =>
        rw [Option.bind_some]
        cases hp : parent.coordinates.isFull with
        | false =>
          rw [Coordinates.gav?_of_not_isFull hp]
          simp [hp]
        | true =>
          obtain ⟨key, ofParent, spelledParent⟩ := Coordinates.exists_gav?_of_isFull hp
          rw [ofParent]
          simpa [hp]
            using (⟨spelledParent, spelledChild⟩ : ParentEdge.Declares ⟨key, child⟩ (parent, p))

theorem forall₂_modulesOf :
    List.Forall₂ ModuleEdge.Declares (projects.flatMap modulesOf)
      (projects.flatMap declaredModules) := by
  refine forall₂_flatMap (fun project => ?_) projects
  cases project with
  | dotnet _ => exact .nil
  | maven p => exact forall₂_map_map (fun _ => ⟨rfl, rfl⟩) p.modules

end Projects

theorem declares_referenceEdge (index : Index) (p : Csproj) (reference : ProjectReference) :
    (referenceEdge index p reference).Declares (p, reference) := by
  rw [referenceEdge]
  split <;> exact ⟨rfl, rfl, rfl⟩

theorem source_dependencyEdge (index : Index) (source : Text) (d : Dependency) :
    (dependencyEdge index source d).source = source ∧
      (dependencyEdge index source d).scope = some d.scope := by
  rw [dependencyEdge]
  split
  · exact ⟨rfl, rfl⟩
  · split <;> exact ⟨rfl, rfl⟩

/-- Every declaration of the projects gives one edge, in their order, and there is no other edge. -/
theorem relations_declared (projects : List Project) : (relations projects).Declares projects := by
  have references :=
    forall₂_referencesOf (Index.ofProjects projects) projects (declares_referenceEdge _)
  have dependencies : List.Forall₂ DependencyEdge.Declares (relations projects).dependencies
      (projects.flatMap requirements) := by
    refine forall₂_dependenciesOf (Index.ofProjects projects) projects
      (fun _ _ => rfl) fun p source d told => ?_
    obtain ⟨from_, scope⟩ := source_dependencyEdge (Index.ofProjects projects) source d
    refine ⟨?_, scope⟩
    rw [from_]
    exact Coordinates.isSpelled_of_gav? told
  have parents := forall₂_parentsOf projects
  have modules := forall₂_modulesOf projects
  refine ⟨references, dependencies, parents, modules, ?_⟩
  rw [← references.length_eq, ← dependencies.length_eq, ← parents.length_eq, ← modules.length_eq]
  rfl

end Graph

end SourceSurvey
