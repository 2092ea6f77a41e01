import SourceSurvey.Proofs.Arrangement

/-! Projects added to a list. What a key finds among some projects it still finds among more of
them, perhaps in another project, so a new project can move a link but cannot cut one. An edge that
leads nowhere tells only what its declaration asks for, and that does not depend on the list. -/

namespace SourceSurvey.Graph

open Descriptor

/-! ### Edges that keep their links -/

/-- One declaration has an edge among some projects and one among more of them. The second starts
where the first does and leads to a project if the first does; while neither does, both have the
path that was asked for. -/
structure ReferenceEdge.Keeps (more fewer : ReferenceEdge) : Prop where
  source : more.source = fewer.source
  name : more.name = fewer.name
  guid : more.guid = fewer.guid
  resolved : fewer.resolved = true → more.resolved = true
  target : fewer.resolved = false → more.resolved = false → more.target = fewer.target

structure DependencyEdge.Keeps (more fewer : DependencyEdge) : Prop where
  source : more.source = fewer.source
  scope : more.scope = fewer.scope
  internal : fewer.internal = true → more.internal = true
  target : fewer.internal = false → more.internal = false → more.target = fewer.target
  version : fewer.internal = false → more.internal = false → more.version = fewer.version

/-- Edges that pair up, in their order. Parents and modules are not looked up, so their edges are
the same. -/
structure Relations.Keeps (more fewer : Relations) : Prop where
  references : List.Forall₂ ReferenceEdge.Keeps more.references fewer.references
  dependencies : List.Forall₂ DependencyEdge.Keeps more.dependencies fewer.dependencies
  parents : more.parents = fewer.parents
  modules : more.modules = fewer.modules

/-- The edges of several projects, one project after the other. -/
def Relations.concat (each : List Relations) : Relations :=
  ⟨each.flatMap (·.references), each.flatMap (·.dependencies), each.flatMap (·.parents),
    each.flatMap (·.modules)⟩

theorem relations_eq_concat (projects : List Project) :
    relations projects = .concat (projects.map (edgesOf projects)) := by
  simp only [relations_eq, Relations.concat, List.flatMap_map]

/-! ### More projects -/

section Subset

variable {fewer projects : List Project} (h : fewer ⊆ projects)

include h

theorem keeps_referenceEdge (p : Csproj) (reference : ProjectReference) :
    (referenceEdge (Index.ofProjects projects) p reference).Keeps
      (referenceEdge (Index.ofProjects fewer) p reference) := by
  have more := declares_referenceEdge (Index.ofProjects projects) p reference
  have before := declares_referenceEdge (Index.ofProjects fewer) p reference
  have leads := resolves_referenceEdge projects p reference
  have led := resolves_referenceEdge fewer p reference
  refine ⟨more.source.trans before.source.symm, more.name.trans before.name.symm,
    more.guid.trans before.guid.symm,
    fun found => ?_, fun lost stillLost => (leads.nowhere stillLost).trans (led.nowhere lost).symm⟩
  obtain ⟨q, hq, told⟩ := led.resolved_iff.mp found
  exact leads.resolved_iff.mpr ⟨q, h hq, told⟩

theorem keeps_dependencyEdge (source : Text) (d : Dependency) :
    (dependencyEdge (Index.ofProjects projects) source d).Keeps
      (dependencyEdge (Index.ofProjects fewer) source d) := by
  obtain ⟨from_, scope⟩ := source_dependencyEdge (Index.ofProjects projects) source d
  obtain ⟨from_', scope'⟩ := source_dependencyEdge (Index.ofProjects fewer) source d
  have leads := classifies_dependencyEdge projects source d
  have led := classifies_dependencyEdge fewer source d
  have asked (lost : (dependencyEdge (Index.ofProjects fewer) source d).internal = false)
      (stillLost : (dependencyEdge (Index.ofProjects projects) source d).internal = false) :=
    And.intro (leads.outside stillLost) (led.outside lost)
  refine ⟨from_.trans from_'.symm, scope.trans scope'.symm, fun found => ?_,
    fun lost stillLost => ?_, fun lost stillLost => ?_⟩
  · obtain ⟨pom, hm, told⟩ := led.internal_iff.mp found
    exact leads.internal_iff.mpr ⟨pom, h hm, told⟩
  · obtain ⟨⟨more, -⟩, before, -⟩ := asked lost stillLost
    exact more.trans before.symm
  · obtain ⟨⟨-, more⟩, -, before⟩ := asked lost stillLost
    exact more.trans before.symm

theorem keeps_edgesOf (project : Project) :
    (edgesOf projects project).Keeps (edgesOf fewer project) := by
  cases project with
  | dotnet p =>
    have packages (package : PackageReference) :
        (packageEdge p package).Keeps (packageEdge p package) :=
      ⟨rfl, rfl, id, fun _ _ => rfl, fun _ _ => rfl⟩
    exact ⟨forall₂_map_map (keeps_referenceEdge h p) p.projectReferences,
      forall₂_map_map packages p.packageReferences, rfl, rfl⟩
  | maven p =>
    refine ⟨.nil, ?_, rfl, rfl⟩
    simp only [edgesOf, dependenciesOf]
    cases p.coordinates.gav? with
    | none => exact .nil
    | some source => exact forall₂_map_map (keeps_dependencyEdge h source) p.dependencies

end Subset

/-- The relations are the edges of each project in turn, and where projects are added each of the
others keeps its edges, one for one and with their links. -/
theorem relations_added {fewer projects : List Project} (h : fewer.Sublist projects) :
    relations fewer = .concat (fewer.map (edgesOf fewer)) ∧
    relations projects = .concat (projects.map (edgesOf projects)) ∧
    ∀ project ∈ fewer, project ∈ projects ∧
      (edgesOf projects project).Keeps (edgesOf fewer project) := by
  refine ⟨relations_eq_concat fewer, relations_eq_concat projects, fun project hm =>
    ⟨h.subset hm, ?_⟩⟩
  exact keeps_edgesOf h.subset project

/-- A project that depends on another one in a version that is not among the projects. -/
def lateWeb : Project :=
  .maven ⟨"/m/web/pom.xml".toList, "/m/web".toList, ⟨some ['g'], some ['b'], some ['1']⟩, none, [],
  none, [], [⟨⟨some ['g'], some ['a'], some ['2']⟩, Pom.defaultScope, Pom.defaultKind, false⟩]⟩

def earlyCore (version : Text) : Project := .maven ⟨"/m/core/pom.xml".toList, "/m/core".toList,
  ⟨some ['g'], some ['a'], some version⟩, none, [], none, [], []⟩

/-- The version that was asked for comes before the one that was found: the link moves to it. -/
theorem relations_added_lateWeb :
    [earlyCore ['1'], lateWeb].Sublist [earlyCore ['2'], earlyCore ['1'], lateWeb] ∧
    (edgesOf [earlyCore ['2'], earlyCore ['1'], lateWeb] lateWeb).Keeps
      (edgesOf [earlyCore ['1'], lateWeb] lateWeb) ∧
    (edgesOf [earlyCore ['1'], lateWeb] lateWeb).dependencies.map (·.target) = ["g:a:1".toList] ∧
    (edgesOf [earlyCore ['2'], earlyCore ['1'], lateWeb] lateWeb).dependencies.map
      (·.target) = ["g:a:2".toList] := by
  have added : [earlyCore ['1'], lateWeb].Sublist [earlyCore ['2'], earlyCore ['1'], lateWeb] :=
    .cons _ (.refl _)
  obtain ⟨-, -, kept⟩ := relations_added added
  exact ⟨added, (kept lateWeb (.tail _ (.head _))).2, by decide, by decide⟩

end SourceSurvey.Graph
