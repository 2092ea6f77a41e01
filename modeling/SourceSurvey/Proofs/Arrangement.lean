import SourceSurvey.Proofs.Targets

/-! Projects in another order. Each project has its edges among the projects of a list, and the
relations are those edges put together. Where no two projects share a descriptor path, a directory
or a key of coordinates, every look-up finds what it finds in any other order of the list, so each
project has the same edges. -/

namespace SourceSurvey.Graph

open Descriptor

/-! ### The edges of a project -/

/-- The edges of one project among the projects of a list. -/
def edgesOf (projects : List Project) (project : Project) : Relations :=
  ⟨referencesOf (Index.ofProjects projects) project,
    dependenciesOf (Index.ofProjects projects) project, parentsOf project, modulesOf project⟩

theorem relations_eq (projects : List Project) : relations projects =
    ⟨projects.flatMap fun p => (edgesOf projects p).references, projects.flatMap fun p =>
      (edgesOf projects p).dependencies,
      projects.flatMap fun p => (edgesOf projects p).parents, projects.flatMap fun p =>
        (edgesOf projects p).modules⟩ := rfl

/-- Indices that answer alike. -/
structure Index.Agrees (a b : Index) : Prop where
  byPath? : a.byPath? = b.byPath?
  byGav : a.byGav.get? = b.byGav.get?
  byGa : a.byGa.get? = b.byGa.get?

section Agrees

variable {a b : Index} (h : a.Agrees b)

include h

theorem referencesOf_congr (project : Project) :
    referencesOf a project = referencesOf b project := by
  cases project with
  | dotnet p =>
    refine List.map_congr_left fun reference _ => ?_
    simp only [referenceEdge, h.byPath?]
  | maven _ => rfl

theorem dependenciesOf_congr (project : Project) :
    dependenciesOf a project = dependenciesOf b project := by
  have edge (source : Text) : dependencyEdge a source = dependencyEdge b source := by
    funext d
    simp only [dependencyEdge, h.byGav, h.byGa]
  cases project with
  | dotnet _ => rfl
  | maven p => simp only [dependenciesOf, edge]

end Agrees

/-! ### Another order -/

/-- No two projects have a path, a directory or a key in common. -/
structure Distinct (projects : List Project) : Prop where
  paths : (projects.map fun q => Path.normalize q.path).Nodup
  dirs : (projects.map fun q => Path.normalize q.dir).Nodup
  gavs : ((poms projects).filterMap fun pom => pom.coordinates.gav?).Nodup
  gas : ((poms projects).filterMap fun pom => pom.coordinates.ga?).Nodup

section Perm

variable {projects other : List Project} (distinct : Distinct projects) (hp : projects.Perm other)

include distinct hp

theorem agrees_of_perm : (Index.ofProjects other).Agrees (Index.ofProjects projects) := by
  have reversed : projects.reverse.Perm other.reverse :=
    projects.reverse_perm.trans (hp.trans other.reverse_perm.symm)
  have pomsReversed : (poms projects).reverse.Perm (poms other).reverse :=
    (poms projects).reverse_perm.trans ((hp.filterMap pom?).trans (poms other).reverse_perm.symm)
  constructor
  · funext path
    rw [byPath?_ofProjects, byPath?_ofProjects]
    congr 1
    · refine find?_perm_map ?_ reversed
      rw [List.map_reverse]
      exact List.nodup_reverse.mpr distinct.paths
    · exact find?_perm_map distinct.dirs hp
  · funext key
    rw [Index.get?_byGav, Index.get?_byGav]
    refine find?_perm ?_ pomsReversed
    rw [List.filterMap_reverse]
    exact List.nodup_reverse.mpr distinct.gavs
  · funext key
    rw [Index.get?_byGa, Index.get?_byGa]
    refine find?_perm ?_ pomsReversed
    rw [List.filterMap_reverse]
    exact List.nodup_reverse.mpr distinct.gas

theorem edgesOf_perm (project : Project) : edgesOf other project = edgesOf projects project := by
  have agrees := agrees_of_perm distinct hp
  rw [edgesOf, referencesOf_congr agrees, dependenciesOf_congr agrees]
  rfl

/-- In any order of the projects each has the same edges, and so the relations have them. -/
theorem relations_perm : (∀ project ∈ projects, edgesOf other project = edgesOf projects project) ∧
    (relations other).references.Perm (relations projects).references ∧
    (relations other).dependencies.Perm (relations projects).dependencies ∧
    (relations other).parents.Perm (relations projects).parents ∧
    (relations other).modules.Perm (relations projects).modules := by
  have same := edgesOf_perm distinct hp
  refine ⟨fun project _ => same project, ?_⟩
  rw [relations_eq, relations_eq]
  simp only [same]
  exact ⟨hp.symm.flatMap_right _, hp.symm.flatMap_right _, hp.symm.flatMap_right _,
    hp.symm.flatMap_right _⟩

end Perm

/-- A .NET project that refers to another one, and a Maven project that depends on another one. -/
def pairedProjects : List Project := [
  .dotnet ⟨"/w/App/App.csproj".toList, "/w/App".toList, none, none, [], none,
    [⟨"..\\Lib".toList, none, none⟩], []⟩,
  .dotnet ⟨"/w/Lib/Lib.csproj".toList, "/w/Lib".toList, none, none, [], none, [], []⟩,
  .maven ⟨"/m/core/pom.xml".toList, "/m/core".toList, ⟨some ['g'], some ['a'], some ['1']⟩, none,
    [], none, [], []⟩,
  .maven ⟨"/m/web/pom.xml".toList, "/m/web".toList, ⟨some ['g'], some ['b'], some ['1']⟩,
    none, [], none, [],
    [⟨⟨some ['g'], some ['a'], some ['2']⟩, Pom.defaultScope, Pom.defaultKind, false⟩]⟩]

theorem relations_perm_pairedProjects :
    Distinct pairedProjects ∧ pairedProjects.Perm pairedProjects.reverse ∧
    (relations pairedProjects.reverse).references.Perm (relations pairedProjects).references ∧
    (relations pairedProjects.reverse).dependencies.Perm
      (relations pairedProjects).dependencies := by
  have distinct : Distinct pairedProjects := ⟨by decide, by decide, by decide, by decide⟩
  have reversed : pairedProjects.Perm pairedProjects.reverse := pairedProjects.reverse_perm.symm
  obtain ⟨-, references, dependencies, -⟩ := relations_perm distinct reversed
  exact ⟨distinct, reversed, references, dependencies⟩

end SourceSurvey.Graph
