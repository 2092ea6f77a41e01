import SourceSurvey.Proofs.Declarations
import SourceSurvey.Proofs.ProjectIndex
import SourceSurvey.Proofs.Spelling

/-! Where edges lead. A reference leads to the project whose descriptor it names, else to the first
project in the directory it names, and else nowhere; a dependency leads to the project with its full
coordinates, else to the one with its group and artifact, and else outside. An edge that leads to a
project tells what that project is, and not what was asked for. -/

namespace SourceSurvey.Graph

open Descriptor

/-! ### References -/

/-- Where an edge leads if a reference names a path among the projects of a list. -/
structure ReferenceEdge.Resolves (projects : List Project) (path : Text)
    (e : ReferenceEdge) : Prop where
  resolved_iff : e.resolved = true ↔ ∃ q ∈ projects, Path.normalize q.path = path ∨
    Path.normalize q.dir = path
  /-- To the last project whose descriptor has the path. -/
  ofDescriptor : (∃ q ∈ projects, Path.normalize q.path = path) →
    ∃ q, IsLast (fun q : Project => Path.normalize q.path = path) projects q ∧ e.target = q.path
  /-- If there is none, to the first project in the directory. -/
  ofDir : (∀ q ∈ projects, Path.normalize q.path ≠ path) →
    (∃ q ∈ projects, Path.normalize q.dir = path) →
    ∃ q, IsFirst (fun q : Project => Path.normalize q.dir = path) projects q ∧ e.target = q.path
  nowhere : e.resolved = false → e.target = path

/-- Where no two descriptors have one path, the edge of an include that is some spelling of a
descriptor path leads to that project. -/
def ReferenceEdge.FollowsSpelling (projects : List Project) (p : Csproj)
    (reference : ProjectReference) (e : ReferenceEdge) : Prop :=
  (projects.map fun q => Path.normalize q.path).Nodup → ∀ q ∈ projects, ∀ included,
    Path.Respelled p.dir included reference.included →
      Path.resolveInclude p.dir included = Path.normalize q.path →
    e.resolved = true ∧ e.target = q.path

section

variable {projects : List Project} {path : Text}

theorem byPath?_ofProjects (projects : List Project) (path : Text) :
    (Index.ofProjects projects).byPath? path =
    (projects.reverse.find? fun q => Path.normalize q.path = path).or
      (projects.find? fun q => Path.normalize q.dir = path) := by
  rw [Index.byPath?, Index.get?_byDescriptor, Index.get?_byDir]

/-- The last project with a descriptor path is found before any directory. -/
theorem exists_byPath?_of_path (h : ∃ q ∈ projects, Path.normalize q.path = path) :
    ∃ q, IsLast (fun q : Project => Path.normalize q.path = path) projects q ∧
      (Index.ofProjects projects).byPath? path = some q := by
  obtain ⟨q, found, last⟩ := exists_isLast h
  refine ⟨q, last, ?_⟩
  rw [byPath?_ofProjects, found, Option.some_or]

theorem exists_byPath?_of_dir (hp : ∀ q ∈ projects, Path.normalize q.path ≠ path)
    (hd : ∃ q ∈ projects, Path.normalize q.dir = path) :
    ∃ q, IsFirst (fun q : Project => Path.normalize q.dir = path) projects q ∧
      (Index.ofProjects projects).byPath? path = some q := by
  have noPath : (projects.reverse.find? fun q => Path.normalize q.path = path) = none :=
    List.find?_eq_none.mpr fun q hq => by simpa using hp q (List.mem_reverse.mp hq)
  obtain ⟨q, found, first⟩ := exists_isFirst hd
  refine ⟨q, first, ?_⟩
  rw [byPath?_ofProjects, noPath, Option.none_or, found]

theorem isSome_byPath?_iff : ((Index.ofProjects projects).byPath? path).isSome = true ↔
    ∃ q ∈ projects, Path.normalize q.path = path ∨ Path.normalize q.dir = path := by
  rw [byPath?_ofProjects, Option.isSome_or, Bool.or_eq_true, List.find?_isSome, List.find?_isSome]
  simp only [List.mem_reverse, decide_eq_true_eq]
  constructor
  · rintro (⟨q, hq, told⟩ | ⟨q, hq, told⟩)
    · exact ⟨q, hq, .inl told⟩
    · exact ⟨q, hq, .inr told⟩
  · rintro ⟨q, hq, told | told⟩
    · exact .inl ⟨q, hq, told⟩
    · exact .inr ⟨q, hq, told⟩

end

/-- An edge tells of what its include is found to be. -/
theorem referenceEdge_of_byPath? {index : Index} {p : Csproj}
    {reference : ProjectReference} {q : Project}
    (h : index.byPath? (Path.resolveInclude p.dir reference.included) = some q) :
    (referenceEdge index p reference).resolved = true ∧
      (referenceEdge index p reference).target = q.path := by
  simp only [referenceEdge, h, and_self]

theorem resolved_referenceEdge (index : Index) (p : Csproj) (reference : ProjectReference) :
    (referenceEdge index p reference).resolved =
      (index.byPath? (Path.resolveInclude p.dir reference.included)).isSome := by
  simp only [referenceEdge]
  split <;> simp [*]

theorem resolves_referenceEdge (projects : List Project) (p : Csproj)
    (reference : ProjectReference) :
    (referenceEdge (Index.ofProjects projects) p reference).Resolves projects
      (Path.resolveInclude p.dir reference.included) := by
  constructor
  · rw [resolved_referenceEdge, isSome_byPath?_iff]
  · intro h
    obtain ⟨q, last, found⟩ := exists_byPath?_of_path h
    exact ⟨q, last, (referenceEdge_of_byPath? found).2⟩
  · intro hp hd
    obtain ⟨q, first, found⟩ := exists_byPath?_of_dir hp hd
    exact ⟨q, first, (referenceEdge_of_byPath? found).2⟩
  · intro h
    rw [resolved_referenceEdge, Option.isSome_eq_false_iff, Option.isNone_iff_eq_none] at h
    simp only [referenceEdge, h]

theorem followsSpelling_referenceEdge (projects : List Project) (p : Csproj)
    (reference : ProjectReference) :
    (referenceEdge (Index.ofProjects projects) p reference).FollowsSpelling projects p
      reference := by
  intro distinct q hq included respelled leads
  rw [respelled.resolveInclude_eq] at leads
  obtain ⟨found, last, told⟩ := exists_byPath?_of_path ⟨q, hq, leads.symm⟩
  have same : found = q := List.inj_on_of_nodup_map distinct last.mem hq (last.1.trans leads)
  exact same ▸ referenceEdge_of_byPath? told

/-- Every reference leads where its include does, read in the directory of its project and however
it is spelled. -/
theorem references_resolved (projects : List Project) :
    List.Forall₂ (fun e d => e.Resolves projects (Path.resolveInclude d.1.dir d.2.included) ∧
        e.FollowsSpelling projects d.1 d.2)
      (relations projects).references (projects.flatMap declaredReferences) :=
  forall₂_referencesOf _ projects fun p reference =>
    ⟨resolves_referenceEdge projects p reference,
      followsSpelling_referenceEdge projects p reference⟩

/-- A project that refers to one of two projects in a directory, by a name with slashes of both
kinds and a detour. -/
def siblingProjects : List Project := [
  .dotnet ⟨"/w/App/App.csproj".toList, "/w/App".toList, none, none, [], none,
    [⟨"..\\Lib/old/../Lib.csproj/".toList, none, none⟩], []⟩,
  .dotnet ⟨"/w/Lib/Core.csproj".toList, "/w/Lib".toList, none, none, [], none, [], []⟩,
  .dotnet ⟨"/w/Lib/Lib.csproj".toList, "/w/Lib".toList, none, none, [], none, [], []⟩]

theorem references_resolved_siblingProjects : ∃ e ∈ (relations siblingProjects).references,
    e.resolved = true ∧ e.target = "/w/Lib/Lib.csproj".toList := by
  have led := references_resolved siblingProjects
  obtain ⟨e, rest, ⟨-, follows⟩, -, edges⟩ := List.forall₂_cons_right_iff.mp led
  have distinct : (siblingProjects.map fun q => Path.normalize q.path).Nodup := by decide
  have slash :
      Path.Plainer "/w/App".toList "..\\Lib/old/../Lib.csproj/".toList
        "../Lib/old/../Lib.csproj/".toList :=
    .slash "..".toList "Lib/old/../Lib.csproj/".toList
  have detour :
      Path.Plainer "/w/App".toList "../Lib/old/../Lib.csproj/".toList "../Lib/Lib.csproj/".toList :=
    .detour "../Lib".toList _ "Lib.csproj/".toList (.back "old".toList (by decide) (by decide))
  have trailing :
      Path.Plainer "/w/App".toList "../Lib/Lib.csproj/".toList "../Lib/Lib.csproj".toList :=
    .trailing "../Lib/Lib.csproj".toList (by decide)
  have respelled :
      Path.Respelled "/w/App".toList "..\\Lib/old/../Lib.csproj/".toList
        "../Lib/Lib.csproj".toList :=
    .trans _ _ _ (.rel _ _ slash) (.trans _ _ _ (.rel _ _ detour) (.rel _ _ trailing))
  refine ⟨e, edges ▸ List.mem_cons_self, ?_⟩
  exact follows distinct _ (.tail _ (.tail _ (.head _))) "../Lib/Lib.csproj".toList
    (.symm _ _ respelled) (by decide)

/-! ### Dependencies -/

/-- Whether two keys are there and the same. -/
def SameKey (asked own : Option Text) : Prop := ∃ key, asked = some key ∧ own = some key

/-- An edge to a Maven project has the version of that project and is called by its coordinates, as
far as these are known. -/
structure DependencyEdge.Names (e : DependencyEdge) (pom : Pom) : Prop where
  version : e.version = pom.coordinates.version
  target : pom.coordinates.gav?.or pom.coordinates.ga? = some e.target

/-- Where an edge leads for a dependency of a Maven project among the projects of a list. -/
structure DependencyEdge.Classifies (projects : List Project) (d : Dependency)
    (e : DependencyEdge) : Prop where
  internal_iff : e.internal = true ↔ ∃ pom, .maven pom ∈ projects ∧
    (SameKey d.coordinates.gav? pom.coordinates.gav? ∨
      SameKey d.coordinates.ga? pom.coordinates.ga?)
  /-- To the last project with the full coordinates. -/
  ofGav : (∃ pom, .maven pom ∈ projects ∧ SameKey d.coordinates.gav? pom.coordinates.gav?) →
    ∃ pom, IsLast (fun pom : Pom => SameKey d.coordinates.gav? pom.coordinates.gav?)
      (poms projects) pom ∧ e.Names pom
  /-- If there is none, to the last project with the group and artifact. -/
  ofGa : (∀ pom, .maven pom ∈ projects → ¬ SameKey d.coordinates.gav? pom.coordinates.gav?) →
    (∃ pom, .maven pom ∈ projects ∧ SameKey d.coordinates.ga? pom.coordinates.ga?) →
    ∃ pom, IsLast (fun pom : Pom => SameKey d.coordinates.ga? pom.coordinates.ga?)
      (poms projects) pom ∧ e.Names pom
  /-- Only outside is it what was asked for. -/
  outside : e.internal = false → e.target = d.coordinates.ga?.getD "external".toList ∧
    e.version = d.coordinates.version

section

variable {projects : List Project} {own : Pom → Option Text} {asked : Option Text} {pom : Pom}

/-- The Maven project that a key leads to, if there is such a key, is the last one that has it. -/
theorem isLast_of_bind
    (h : (asked.bind fun key => (poms projects).reverse.find? fun pom =>
    own pom = some key) = some pom) :
    IsLast (fun pom => SameKey asked (own pom)) (poms projects) pom := by
  obtain ⟨key, rfl, found⟩ := Option.bind_eq_some_iff.mp h
  obtain ⟨told, before, after, split, others⟩ := isLast_of_find?_reverse found
  refine ⟨⟨key, rfl, told⟩, before, after, split, fun other hm same => others other hm ?_⟩
  obtain ⟨_, asked, told⟩ := same
  exact told.trans asked.symm

theorem not_sameKey_of_bind
    (h : (asked.bind fun key => (poms projects).reverse.find? fun pom => own pom = some key) = none)
    (hm : .maven pom ∈ projects) : ¬ SameKey asked (own pom) := by
  rintro ⟨key, rfl, told⟩
  rw [Option.bind_some, List.find?_eq_none] at h
  exact absurd told (by simpa using h pom (List.mem_reverse.mpr (mem_poms.mpr hm)))

end

section

variable {index : Index} (source : Text) {d : Dependency} {found : Pom}

theorem dependencyEdge_of_gav (h : d.coordinates.gav?.bind index.byGav.get? = some found) : ∃ gav,
    d.coordinates.gav? = some gav ∧
      dependencyEdge index source d = ⟨source, gav, found.coordinates.version,
        some d.scope, true⟩ := by
  obtain ⟨gav, asked, told⟩ := Option.bind_eq_some_iff.mp h
  refine ⟨gav, asked, ?_⟩
  simp only [dependencyEdge, asked, told, Option.bind_some, Option.map_some]

theorem bind_exact_eq_none (h : d.coordinates.gav?.bind index.byGav.get? = none) :
    (d.coordinates.gav?.bind fun gav => (index.byGav.get? gav).map (gav, ·)) = none := by
  cases hg : d.coordinates.gav? with
  | none => rfl
  | some gav =>
    rw [hg, Option.bind_some] at h
    rw [Option.bind_some, h, Option.map_none]

theorem dependencyEdge_of_ga (hn : d.coordinates.gav?.bind index.byGav.get? = none)
    (h : d.coordinates.ga?.bind index.byGa.get? = some found) :
    dependencyEdge index source d =
      ⟨source, (found.coordinates.gav?.or d.coordinates.ga?).getD external,
      found.coordinates.version, some d.scope, true⟩ := by
  simp only [dependencyEdge, bind_exact_eq_none hn, h]

theorem dependencyEdge_outside (hn : d.coordinates.gav?.bind index.byGav.get? = none)
    (h : d.coordinates.ga?.bind index.byGa.get? = none) :
    dependencyEdge index source d =
      ⟨source, d.coordinates.ga?.getD external, d.coordinates.version, some d.scope, false⟩ := by
  simp only [dependencyEdge, bind_exact_eq_none hn, h]

end

/-- The three things that an edge of a dependency can be. -/
theorem dependencyEdge_cases (projects : List Project) (source : Text) (d : Dependency)
    {e : DependencyEdge} (he : e = dependencyEdge (Index.ofProjects projects) source d) :
    (∃ pom, IsLast (fun pom : Pom => SameKey d.coordinates.gav? pom.coordinates.gav?)
      (poms projects) pom ∧
      e.internal = true ∧ e.Names pom) ∨
    (∀ pom, .maven pom ∈ projects → ¬ SameKey d.coordinates.gav? pom.coordinates.gav?) ∧
      ((∃ pom, IsLast (fun pom : Pom => SameKey d.coordinates.ga? pom.coordinates.ga?)
        (poms projects) pom ∧
        e.internal = true ∧ e.Names pom) ∨
      (∀ pom, .maven pom ∈ projects → ¬ SameKey d.coordinates.ga? pom.coordinates.ga?) ∧
        e.internal = false ∧ e.target = d.coordinates.ga?.getD external ∧
          e.version = d.coordinates.version) := by
  have byGav : (Index.ofProjects projects).byGav.get? = fun key =>
      (poms projects).reverse.find? fun pom => pom.coordinates.gav? = some key :=
        funext (Index.get?_byGav projects)
  have byGa : (Index.ofProjects projects).byGa.get? = fun key =>
      (poms projects).reverse.find? fun pom => pom.coordinates.ga? = some key :=
        funext (Index.get?_byGa projects)
  cases hgav : d.coordinates.gav?.bind (Index.ofProjects projects).byGav.get? with
  | some found =>
    obtain ⟨gav, asked, edge⟩ := dependencyEdge_of_gav source hgav
    have last := isLast_of_bind (byGav ▸ hgav)
    obtain ⟨key, asked', told⟩ := last.1
    rw [he, edge]
    exact .inl ⟨found, last, rfl, rfl, by rw [told, ← asked', asked, Option.some_or]⟩
  | none =>
    refine .inr ⟨fun pom hm => not_sameKey_of_bind (byGav ▸ hgav) hm, ?_⟩
    cases hga : d.coordinates.ga?.bind (Index.ofProjects projects).byGa.get? with
    | some found =>
      have last := isLast_of_bind (byGa ▸ hga)
      obtain ⟨key, asked, told⟩ := last.1
      rw [he, dependencyEdge_of_ga source hgav hga]
      refine .inl ⟨found, last, rfl, rfl, ?_⟩
      rw [told, asked]
      cases found.coordinates.gav? <;> rfl
    | none =>
      rw [he, dependencyEdge_outside source hgav hga]
      exact .inr ⟨fun pom hm => not_sameKey_of_bind (byGa ▸ hga) hm, rfl, rfl, rfl⟩

theorem classifies_dependencyEdge (projects : List Project) (source : Text) (d : Dependency) :
    (dependencyEdge (Index.ofProjects projects) source d).Classifies projects d := by
  rcases dependencyEdge_cases projects source d rfl with
    ⟨found, last, inside, names⟩ | ⟨noGav, ⟨found, last, inside, names⟩ | ⟨noGa, outside, asked⟩⟩
  · have led : .maven found ∈ projects := mem_poms.mp last.mem
    exact ⟨⟨fun _ => ⟨found, led, .inl last.1⟩, fun _ => inside⟩, fun _ => ⟨found, last, names⟩,
      fun noGav => absurd last.1 (noGav found led), fun outside =>
        absurd inside (by simp [outside])⟩
  · have led : .maven found ∈ projects := mem_poms.mp last.mem
    exact ⟨⟨fun _ => ⟨found, led, .inr last.1⟩, fun _ => inside⟩, fun ⟨pom, hm, same⟩ =>
      absurd same (noGav pom hm),
      fun _ _ => ⟨found, last, names⟩, fun outside => absurd inside (by simp [outside])⟩
  · refine ⟨⟨fun inside => absurd inside (by simp [outside]), ?_⟩, fun ⟨pom, hm, same⟩ =>
      absurd same (noGav pom hm),
      fun _ ⟨pom, hm, same⟩ => absurd same (noGa pom hm), fun _ => asked⟩
    rintro ⟨pom, hm, same | same⟩
    · exact absurd same (noGav pom hm)
    · exact absurd same (noGa pom hm)

/-- A package is always outside. -/
def DependencyEdge.IsClassified (projects : List Project) (e : DependencyEdge) : Requirement → Prop
  | .package _ _ => e.internal = false
  | .dependency _ d => e.Classifies projects d

/-- Every dependency leads to the project that has its coordinates, or else outside. -/
theorem dependencies_classified (projects : List Project) :
    List.Forall₂ (DependencyEdge.IsClassified projects) (relations projects).dependencies
      (projects.flatMap requirements) :=
  forall₂_dependenciesOf _ projects (fun _ _ => rfl) fun _ source d _ =>
    classifies_dependencyEdge projects source d

end SourceSurvey.Graph
