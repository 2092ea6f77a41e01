import SourceSurvey.Proofs.TreeSurveys

/-! The order in which directories hold their entries. In whatever order a file system lists the
entries of a directory, the same things stand under the same names, every path leads to the same
names, and what a walk finds is put in order before anything is made of it. So a survey finds the
same descriptors, projects and sources, relates them alike and reports the same diagnostics, and so
it does when ecosystems are listed in another order or twice. One thing is not put in order: of
several directories of a project that cannot be visited, the first one met is told beside its
sources. -/

namespace SourceSurvey

open Text

/-! ### Trees in another order -/

/-- One tree twice, each directory with its entries in an order of its own: the entries of both
sides are those of some pairs under one name. -/
inductive Entry.Reordered : Entry → Entry → Prop
  | intro {e other : Entry} (pairs : List (Text × Entry × Entry)) : other.bare = e.bare →
      (∀ p ∈ pairs, Reordered p.2.1 p.2.2) → e.entries.Perm (pairs.map fun p => (p.1, p.2.1)) →
      other.entries.Perm (pairs.map fun p => (p.1, p.2.2)) → Reordered e other

namespace Entry.Reordered

variable {e other child : Entry} {name : Text} {names : List Text}

theorem bare (h : Reordered e other) : other.bare = e.bare := by
  obtain ⟨-, same, -⟩ := h
  exact same

theorem isDir (h : Reordered e other) : other.isDir = e.isDir := by
  rw [← isDir_bare, h.bare, isDir_bare]

theorem target? (h : Reordered e other) : other.target? = e.target? := by
  rw [← target?_bare, h.bare, target?_bare]

theorem met (h : Reordered e other) (path : Text) : other.met path = e.met path := by
  have told (e : Entry) : e.bare.met path = e.met path := by cases e <;> rfl
  rw [← told, h.bare, told]

theorem of_leaf (h : e.entries = []) : Reordered e e :=
  .intro [] rfl (by simp) (.of_eq h) (.of_eq h)

theorem symm (h : Reordered e other) : Reordered other e := by
  induction h with
  | intro pairs bare _ left right ih =>
    refine .intro (pairs.map fun p => (p.1, p.2.2, p.2.1)) bare.symm ?_ ?_ ?_
    · exact List.forall_mem_map.mpr ih
    · simpa [Function.comp_def] using right
    · simpa [Function.comp_def] using left

theorem isTree (h : Reordered e other) (ht : e.isTree = true) : other.isTree = true := by
  induction h with
  | @intro e other pairs _ _ left right ih =>
    rw [isTree_iff] at ht ⊢
    obtain ⟨sound, distinct⟩ := ht
    constructor
    · intro child hc
      obtain ⟨p, hp, rfl⟩ := List.mem_map.mp (right.mem_iff.mp hc)
      obtain ⟨segment, tree⟩ := sound _ (left.mem_iff.mpr (List.mem_map.mpr ⟨p, hp, rfl⟩))
      exact ⟨segment, ih p hp tree⟩
    · have names : (other.entries.map (·.1)).Perm (e.entries.map (·.1)) := by
        refine (right.map _).trans (.trans ?_ (left.map _).symm)
        rw [List.map_map, List.map_map]
        exact .refl _
      exact names.nodup_iff.mpr distinct

/-- An entry of a name has its counterpart under that name. -/
theorem exists_entry?_eq_some (h : Reordered e other) (ht : e.isTree = true)
    (hc : e.entry? name = some child) :
    ∃ child', other.entry? name = some child' ∧ Reordered child child' := by
  have tree := h.isTree ht
  obtain ⟨pairs, -, alike, left, right⟩ := h
  obtain ⟨p, hp, same⟩ := List.mem_map.mp (left.mem_iff.mp (mem_of_entry?_eq_some hc))
  obtain ⟨rfl, rfl⟩ := Prod.mk.inj same
  refine ⟨p.2.2, (entry?_eq_some_iff tree).mpr ?_, alike p hp⟩
  exact right.mem_iff.mpr (List.mem_map.mpr ⟨p, hp, rfl⟩)

/-- What stands at some names has its counterpart there. -/
theorem exists_at?_eq_some (h : Reordered e other) (ht : e.isTree = true)
    (hs : e.at? names = some child) :
    ∃ child', other.at? names = some child' ∧ Reordered child child' := by
  induction names generalizing e other with
  | nil => exact ⟨other, rfl, Option.some.inj hs ▸ h⟩
  | cons name names ih =>
    obtain ⟨next, held, below⟩ := Option.bind_eq_some_iff.mp hs
    obtain ⟨next', held', same⟩ := h.exists_entry?_eq_some ht held
    rw [at?_cons, held', Option.bind_some]
    exact ih same (isTree_of_entry?_eq_some ht held).2 below

/-- Another order changes nothing of what is seen under which names. -/
theorem sight (h : Reordered e other) (ht : e.isTree = true) (names : List Text) :
    other.sight names = e.sight names := by
  cases hs : e.at? names with
  | some child =>
    obtain ⟨child', standing, same⟩ := h.exists_at?_eq_some ht hs
    rw [sight_of_at? hs, sight_of_at? standing, same.bare]
  | none =>
    have nothing : other.at? names = none := by
      refine Option.eq_none_iff_forall_ne_some.mpr fun child standing => ?_
      obtain ⟨child', standing', -⟩ := h.symm.exists_at?_eq_some (h.isTree ht) standing
      exact absurd (hs.symm.trans standing') (by simp)
    rw [Entry.sight, Entry.sight, hs, nothing]

/-- A walk meets the same, if in another order. -/
theorem walk (h : Reordered e other) (enters : Text → Bool) (dir : Text) :
    (other.walk enters dir).Perm (e.walk enters dir) := by
  induction h generalizing dir with
  | @intro e other pairs bare alike left right ih =>
    have told : other.met dir = e.met dir := met (.intro pairs bare alike left right) dir
    rw [walk_eq, walk_eq, told, walkIn_eq_flatMap, walkIn_eq_flatMap]
    refine List.Perm.append_right _ ?_
    refine (right.flatMap_right _).trans (.trans ?_ (left.flatMap_right _).symm)
    rw [List.flatMap_map, List.flatMap_map]
    refine List.Perm.flatMap_left _ fun p hp => ?_
    rw [(alike p hp).isDir]
    split
    · exact .refl _
    · exact ih p hp _

end Entry.Reordered

/-! ### What is seen of a tree -/

/-- One tree twice, seen from one directory. -/
structure Disk.Alike (disk other : Disk) : Prop where
  tree : disk.root.isTree = true
  current : other.current = disk.current
  root : disk.root.Reordered other.root

namespace Disk.Alike

open Scan

variable {disk other : Disk} (h : disk.Alike other)

include h

theorem other_tree : other.root.isTree = true := h.root.isTree h.tree

theorem placing (stays : Bool) (path : Text) : other.placing stays path = disk.placing stays path :=
  placing_congr h.current (h.root.sight h.tree) stays path

theorem follow_error {stays : Bool} {path : Text} {fault : DiskFault}
    (hf : disk.follow stays path = .error fault) : other.follow stays path = .error fault := by
  have same := h.placing stays path
  rw [Disk.placing, Disk.placing, hf] at same
  cases ho : other.follow stays path with
  | error fault' => simpa [ho, Except.map] using same
  | ok there => exact absurd same (by simp [ho, Except.map])

/-- A path leads to the counterpart of where it led. -/
theorem exists_follow {stays : Bool} {path : Text} {here : Location}
    (hf : disk.follow stays path = .ok here) : ∃ there, other.follow stays path = .ok there ∧
      there.names = here.names ∧ here.entry.Reordered there.entry := by
  have place : disk.placing stays path = .ok here.names := by
    rw [Disk.placing, hf]
    rfl
  obtain ⟨there, followed, names⟩ := Disk.exists_follow ((h.placing stays path).trans place)
  obtain ⟨entry, standing, alike⟩ :=
    h.root.exists_at?_eq_some h.tree (stands_of_follow hf).at?
  rw [← names, (stands_of_follow followed).at?] at standing
  exact ⟨there, followed, names, Option.some.inj standing ▸ alike⟩

theorem read (path : Text) : other.read path = disk.read path := by
  rw [read_eq, read_eq, place, place, h.placing]
  simp only [h.root.sight h.tree]

theorem isDir (path : Text) : other.isDir path = disk.isDir path := by
  rw [Disk.isDir, Disk.isDir, locate, locate]
  cases hf : disk.follow false path with
  | error fault => rw [h.follow_error hf]
  | ok here =>
    obtain ⟨there, followed, -, alike⟩ := h.exists_follow hf
    rw [followed]
    exact alike.isDir

theorem canonical (path : Text) : other.canonical path = disk.canonical path := by
  rw [Disk.canonical, Disk.canonical, locate, locate]
  cases hf : disk.follow false path with
  | error fault => rw [h.follow_error hf]
  | ok here =>
    obtain ⟨there, followed, names, -⟩ := h.exists_follow hf
    simp only [followed, Location.path_eq, names]

/-- A walk meets the same, if in another order. -/
theorem walk (enters : Text → Bool) (path : Text) :
    (other.walk enters path).Perm (disk.walk enters path) := by
  rw [Disk.walk, Disk.walk, look, look]
  cases hf : disk.follow true path with
  | error fault => rw [h.follow_error hf]
  | ok here =>
    obtain ⟨there, followed, -, alike⟩ := h.exists_follow hf
    simp only [followed, alike.target?]
    split
    · exact alike.walk enters path
    · rw [locate, locate]
      cases hl : disk.follow false path with
      | error fault => rw [h.follow_error hl]
      | ok here =>
        obtain ⟨there, followed, -, alike⟩ := h.exists_follow hl
        simp only [followed, alike.isDir]
        split
        · exact alike.walk enters path
        · exact .refl _

theorem listFiles (enters : Text → Bool) (dir : Text) :
    (Scan.listFiles other enters dir).found.Perm (Scan.listFiles disk enters dir).found ∧
      (Scan.listFiles other enters dir).diagnostics.Perm
        (Scan.listFiles disk enters dir).diagnostics :=
  ⟨(h.walk enters dir).filterMap _, (h.walk enters dir).filterMap _⟩

/-- The descriptors below a root are told by what is seen of the tree and by which ecosystems are in
the list. -/
theorem discover {ecosystems listed : List Ecosystem} (he : ∀ e, e ∈ listed ↔ e ∈ ecosystems)
    (root : Text) :
    (Scan.discover other root listed).found = (Scan.discover disk root ecosystems).found ∧
      (Scan.discover other root listed).diagnostics.Perm
        (Scan.discover disk root ecosystems).diagnostics := by
  obtain ⟨files, faults⟩ := h.listFiles (avoids ignoredDirs) root
  refine ⟨(pairwise_discover root listed h.other_tree).eq_of_mem_iff
    (pairwise_discover root ecosystems h.tree) fun d => ?_, faults⟩
  rw [mem_discover, mem_discover, files.mem_iff, he]

/-- The sources of a project are told by what is seen of the tree. -/
theorem sources (f : SourceFilter) : (f.sources other).found = (f.sources disk).found ∧
    (f.sources other).diagnostics.Perm (f.sources disk).diagnostics := by
  have roots : f.walkRoots other = f.walkRoots disk := SourceFilter.walkRoots_congr h.isDir
  constructor
  · refine (SourceFilter.pairwise_sources h.other_tree).eq_of_mem_iff
      (SourceFilter.pairwise_sources h.tree) fun path => ?_
    rw [SourceFilter.mem_sources, SourceFilter.mem_sources, roots]
    simp only [(h.listFiles (avoids f.ecosystem.outputDirs) _).1.mem_iff]
  · simp only [SourceFilter.sources, roots, List.flatMap_map]
    exact List.Perm.flatMap_left _ fun dir _ => (h.listFiles _ dir).2

theorem readProject (ecosystem : Ecosystem) (path : Text) :
    Scan.readProject other ecosystem path = Scan.readProject disk ecosystem path := by
  rw [Scan.readProject, Scan.readProject, h.read]

theorem readSummary : Scan.readSummary other = Scan.readSummary disk := by
  funext language path
  rw [Scan.readSummary, Scan.readSummary, h.read]

end Disk.Alike

/-! ### Surveys -/

namespace Scan

/-- A project with its sources, of which it is only told whether they could all be listed. -/
def ProjectSummary.settled (s : ProjectSummary) : ProjectSummary :=
  { s with sources := { s.sources with error := s.sources.error.map fun _ => [] } }

/-- A report that tells of each project only whether all its sources could be listed. -/
def Report.settled (r : Report) : Report :=
  { r with projects := r.projects.map ProjectSummary.settled }

variable {disk other : Disk} {excludes : List Glob}

/-- In another order the first one may be another one, but there is one or there is none. -/
theorem heads_of_perm {first last : List Diagnostic} (h : first.Perm last) :
    (first.head? = none ∧ last.head? = none) ∨
      ∃ g ∈ last, ∃ g' ∈ last, first.head? = some g ∧ last.head? = some g' := by
  cases first with
  | nil => exact .inl ⟨rfl, by rw [← h.nil_eq, List.head?_nil]⟩
  | cons g first =>
    cases last with
    | nil => exact absurd h.eq_nil (List.cons_ne_nil g first)
    | cons g' last =>
      exact .inr ⟨g, h.mem_iff.mp List.mem_cons_self, g', List.mem_cons_self, rfl, rfl⟩

/-- Whether something is told of a project does not depend on the order. -/
theorem settled_error {first last : List Diagnostic} (h : first.Perm last) :
    (first.head?.map (·.message)).map (fun _ => ([] : Text)) =
      (last.head?.map (·.message)).map (fun _ => ([] : Text)) := by
  obtain ⟨none, none'⟩ | ⟨g, -, g', -, some, some'⟩ := heads_of_perm h
  · rw [none, none']
  · rw [some, some']
    rfl

theorem message_head? {first last : List Diagnostic} (h : first.Perm last)
    (hm : ∀ a ∈ last, ∀ b ∈ last, a.message = b.message) :
    first.head?.map (·.message) = last.head?.map (·.message) := by
  obtain ⟨none, none'⟩ | ⟨g, hg, g', hg', some, some'⟩ := heads_of_perm h
  · rw [none, none']
  · rw [some, some', Option.map_some, Option.map_some, hm g hg g' hg']

/-- The sources of a project are summarized alike, and what goes wrong with them is the same. -/
theorem surveyProject_reordered (h : disk.Alike other) (project : Project) :
    (surveyProject other excludes project).1.settled =
        (surveyProject disk excludes project).1.settled ∧
      (surveyProject other excludes project).2.Perm (surveyProject disk excludes project).2 := by
  obtain ⟨found, diagnostics⟩ := h.sources ⟨project.dir, project.ecosystem, excludes⟩
  simp only [surveyProject, summarizeSources, ProjectSummary.settled, found, h.readSummary,
    settled_error diagnostics]
  exact ⟨trivial, diagnostics.append_right _⟩

/-- What goes wrong in listing the sources of a project does not depend on the globs. -/
theorem diagnostics_listingOf (disk : Disk) (excludes : List Glob) (project : Project) :
    (listingOf disk excludes project).diagnostics = (listingOf disk [] project).diagnostics := by
  simp only [listingOf, SourceFilter.sources, SourceFilter.walkRoots, SourceFilter.isOutputDir]

/-- What is told of a project is the same too where its diagnostics have one message. -/
theorem surveyProject_reordered_of_message (h : disk.Alike other) (project : Project)
    (hm : ∀ a ∈ (listingOf disk [] project).diagnostics,
      ∀ b ∈ (listingOf disk [] project).diagnostics, a.message = b.message) :
    (surveyProject other excludes project).1 = (surveyProject disk excludes project).1 := by
  obtain ⟨found, diagnostics⟩ := h.sources ⟨project.dir, project.ecosystem, excludes⟩
  rw [← diagnostics_listingOf disk excludes] at hm
  have error := message_head? diagnostics hm
  simp only [surveyProject, summarizeSources, found, h.readSummary, error]

/-- The survey of a root finds and relates the same and reports the same diagnostics. -/
theorem surveyFrom_reordered (h : disk.Alike other) {ecosystems listed : List Ecosystem}
    (he : ∀ e, e ∈ listed ↔ e ∈ ecosystems) (root : Text) (excludes : List Glob) :
    (surveyFrom other root listed excludes).settled =
        (surveyFrom disk root ecosystems excludes).settled ∧
      ((∀ p ∈ (surveyFrom disk root ecosystems excludes).projects,
        ∀ a ∈ (listingOf disk [] p.project).diagnostics,
        ∀ b ∈ (listingOf disk [] p.project).diagnostics, a.message = b.message) →
          surveyFrom other root listed excludes = surveyFrom disk root ecosystems excludes) := by
  obtain ⟨found, faults⟩ := h.discover he root
  have projects : projectAt? other = projectAt? disk :=
    funext fun d => by rw [projectAt?, projectAt?, h.readProject]
  have faulty : failureAt? other = failureAt? disk :=
    funext fun d => by rw [failureAt?, failureAt?, h.readProject]
  have relations : (surveyFrom other root listed excludes).relations =
      (surveyFrom disk root ecosystems excludes).relations := by
    simp only [surveyFrom, readProjects_eq, found, projects, funext h.canonical]
  have diagnostics : (surveyFrom other root listed excludes).diagnostics =
      (surveyFrom disk root ecosystems excludes).diagnostics := by
    rw [diagnostics_surveyFrom, diagnostics_surveyFrom]
    refine Diagnostic.sort_eq_of_perm (fun g => recorded_of_mem_failures) ?_
      (Diagnostic.pairwise_sort _)
    refine (Diagnostic.sort_perm _).trans ?_
    simp only [failures, found, projects, faulty]
    refine (faults.symm.append_right _).append (List.Perm.flatMap_left _ fun p _ => ?_)
    rw [← snd_surveyProject, ← snd_surveyProject]
    exact (surveyProject_reordered h p).2.symm
  have parts (d : Disk) (asked : List Ecosystem) : surveyFrom d root asked excludes =
      ⟨root, (surveyFrom d root asked excludes).projects,
        (surveyFrom d root asked excludes).relations,
        (surveyFrom d root asked excludes).diagnostics⟩ := rfl
  constructor
  · rw [Report.settled, Report.settled, parts other, parts disk, relations, diagnostics,
      projects_surveyFrom, projects_surveyFrom, found, projects]
    simp only [List.map_map, Report.mk.injEq, true_and, and_true]
    exact List.map_congr_left fun p _ => (surveyProject_reordered h p).1
  · intro hm
    rw [projects_surveyFrom, List.forall_mem_map] at hm
    rw [parts other, parts disk, relations, diagnostics, projects_surveyFrom, projects_surveyFrom,
      found, projects, List.map_congr_left fun p hp =>
        surveyProject_reordered_of_message h p (hm p hp)]

theorem resolveRoot_reordered (h : disk.Alike other) (root : Text) :
    resolveRoot other root = resolveRoot disk root := by
  have place : other.place root = disk.place root := h.placing false root
  rw [resolveRoot_eq, resolveRoot_eq, place]
  simp only [h.root.sight h.tree]

/-- In whatever order the directories of a tree hold their entries, and in whatever order and how
often the ecosystems are listed, the descriptors below any root and the sources of any project are
found in the same order and with the same faults, and a survey gives the same error or the same
report, except that it may tell another one of several faults beside the sources of a project.
Where the faults in listing the sources of each project have one message, which is so with one
fault at most, the report is the same. -/
theorem survey_reordered {root : Entry} {configuration : Configuration} {listed : List Ecosystem}
    (ht : disk.root.isTree = true) (hr : disk.root.Reordered root)
    (he : ∀ e, e ∈ listed ↔ e ∈ configuration.ecosystems) :
    (∀ dir, (discover { disk with root := root } dir listed).found =
        (discover disk dir configuration.ecosystems).found ∧
      (discover { disk with root := root } dir listed).diagnostics.Perm
        (discover disk dir configuration.ecosystems).diagnostics) ∧
    (∀ f : SourceFilter, (f.sources { disk with root := root }).found = (f.sources disk).found ∧
      (f.sources { disk with root := root }).diagnostics.Perm (f.sources disk).diagnostics) ∧
    (survey { disk with root := root } { configuration with ecosystems := listed }).map
        Report.settled = (survey disk configuration).map Report.settled ∧
    ∀ report, survey disk configuration = .ok report →
      (∀ p ∈ report.projects, ∀ a ∈ (listingOf disk [] p.project).diagnostics,
        ∀ b ∈ (listingOf disk [] p.project).diagnostics, a.message = b.message) →
      survey { disk with root := root } { configuration with ecosystems := listed } =
        .ok report := by
  have alike : disk.Alike { disk with root := root } := ⟨ht, rfl, hr⟩
  let asked : Configuration := { configuration with ecosystems := listed }
  have resolved : resolveRoot { disk with root := root } asked.root =
      resolveRoot disk configuration.root := resolveRoot_reordered alike configuration.root
  refine ⟨alike.discover he, alike.sources, ?_, ?_⟩
  · cases hr : resolveRoot disk configuration.root with
    | error fault =>
      have refused : survey { disk with root := root } asked = .error fault :=
        survey_eq_error (resolved.trans hr)
      rw [survey_eq_error hr, refused]
    | ok at_ =>
      cases hg : Glob.parseAll configuration.excludes with
      | error fault =>
        have refused : survey { disk with root := root } asked = .error (.invalidGlob _ _) :=
          survey_eq_invalidGlob (resolved.trans hr) hg
        rw [survey_eq_invalidGlob hr hg, refused]
      | ok excludes =>
        have surveyed : survey { disk with root := root } asked = .ok _ :=
          survey_eq_ok (resolved.trans hr) hg
        rw [survey_eq_ok hr hg, surveyed]
        exact congrArg Except.ok (surveyFrom_reordered alike he at_ excludes).1
  · intro report surveyed one
    obtain ⟨at_, excludes, hr, hg, rfl⟩ := survey_eq_ok_iff.mp surveyed
    have given : survey { disk with root := root } asked = .ok _ :=
      survey_eq_ok (resolved.trans hr) hg
    rw [given, (surveyFrom_reordered alike he at_ excludes).2 one]

/-- Two projects in one directory, one of them with sources and with a directory that cannot be
opened. -/
def sharedDisk : Disk where
  root := .dir [("w".toList, .dir [
    ("A.csproj".toList, .file (encode "<Project/>".toList)),
    ("src".toList, .dir [
      ("A.cs".toList, .file []),
      ("own".toList, .lockedDir (.refused "Permission denied".toList 13))]),
    ("pom.xml".toList, .file (encode "<project>".toList))])]
  current := "/w".toList

/-- The root of that tree with its directories read backwards. -/
def sharedBackwards : Entry :=
  .dir [("w".toList, .dir [
    ("pom.xml".toList, .file (encode "<project>".toList)),
    ("src".toList, .dir [
      ("own".toList, .lockedDir (.refused "Permission denied".toList 13)),
      ("A.cs".toList, .file [])]),
    ("A.csproj".toList, .file (encode "<Project/>".toList))])]

theorem reordered_sharedBackwards : sharedDisk.root.Reordered sharedBackwards := by
  refine .intro [("w".toList, _, _)] rfl (fun p hp => ?_) (.refl _) (.refl _)
  rw [List.mem_singleton.mp hp]
  refine .intro [("A.csproj".toList, _, _), ("src".toList, _, _), ("pom.xml".toList, _, _)] rfl
    ?_ (.refl _) (List.reverse_perm [_, _, _])
  have sources : Entry.Reordered
      (.dir [("A.cs".toList, .file []),
        ("own".toList, .lockedDir (.refused "Permission denied".toList 13))])
      (.dir [("own".toList, .lockedDir (.refused "Permission denied".toList 13)),
        ("A.cs".toList, .file [])]) := by
    refine .intro [("A.cs".toList, _, _), ("own".toList, _, _)] rfl ?_ (.refl _) (.swap ..)
    simpa using ⟨.of_leaf rfl, .of_leaf rfl⟩
  simpa using ⟨.of_leaf rfl, sources, .of_leaf rfl⟩

theorem survey_reordered_sharedDisk : sharedDisk.root.isTree = true ∧
    sharedDisk.root.Reordered sharedBackwards ∧
    ∃ report, survey sharedDisk ⟨['.'], [.dotnet, .maven], []⟩ = .ok report ∧
      report.projects.map (·.sources.error.isSome) = [true] ∧
      survey { sharedDisk with root := sharedBackwards } ⟨['.'], [.maven, .dotnet, .maven], []⟩ =
        .ok report := by
  have tree : sharedDisk.root.isTree = true := by decide
  have same (e : Ecosystem) : e ∈ [.maven, .dotnet, .maven] ↔ e ∈ [.dotnet, .maven] := by
    cases e <;> decide
  have surveyed : survey sharedDisk ⟨['.'], [.dotnet, .maven], []⟩ =
      .ok (surveyFrom sharedDisk "/w".toList [.dotnet, .maven] []) := rfl
  have found : (discover sharedDisk "/w".toList [.dotnet, .maven]).found =
      [⟨"/w/A.csproj".toList, .dotnet⟩, ⟨"/w/pom.xml".toList, .maven⟩] := by
    rw [discover, sortedDistinct, List.mergeSort_of_pairwise (by decide +kernel)]
    decide +kernel
  obtain ⟨-, -, -, settled⟩ := @survey_reordered sharedDisk sharedBackwards
    ⟨['.'], [.dotnet, .maven], []⟩ [.maven, .dotnet, .maven] tree reordered_sharedBackwards same
  refine ⟨tree, reordered_sharedBackwards, _, surveyed, ?_, settled _ surveyed ?_⟩
  · rw [projects_surveyFrom, found]
    decide +kernel
  · rw [projects_surveyFrom, found]
    decide +kernel

/-- A project with two directories that cannot be opened. -/
def shutDisk : Disk where
  root := .dir [("w".toList, .dir [
    ("A.csproj".toList, .file (encode "<Project/>".toList)),
    ("a".toList, .lockedDir (.refused "Permission denied".toList 13)),
    ("b".toList, .lockedDir (.refused "Permission denied".toList 13))])]
  current := "/w".toList

/-- The root of that tree with its directories read backwards. -/
def shutBackwards : Entry :=
  .dir [("w".toList, .dir [
    ("b".toList, .lockedDir (.refused "Permission denied".toList 13)),
    ("a".toList, .lockedDir (.refused "Permission denied".toList 13)),
    ("A.csproj".toList, .file (encode "<Project/>".toList))])]

/-- Of two directories that cannot be opened the one that is met first is told beside the sources,
so reports may differ. -/
theorem exists_reordered_report : shutDisk.root.isTree = true ∧
    shutDisk.root.Reordered shutBackwards ∧
    ∃ report report', survey shutDisk ⟨['.'], [.dotnet], []⟩ = .ok report ∧
      survey { shutDisk with root := shutBackwards } ⟨['.'], [.dotnet], []⟩ = .ok report' ∧
      report ≠ report' := by
  have reordered : shutDisk.root.Reordered shutBackwards := by
    refine .intro [("w".toList, _, _)] rfl (fun p hp => ?_) (.refl _) (.refl _)
    rw [List.mem_singleton.mp hp]
    refine .intro [("A.csproj".toList, _, _), ("a".toList, _, _), ("b".toList, _, _)] rfl
      ?_ (.refl _) (List.reverse_perm [_, _, _])
    simpa using ⟨.of_leaf rfl, .of_leaf rfl⟩
  let report := surveyFrom shutDisk "/w".toList [.dotnet] []
  let report' := surveyFrom { shutDisk with root := shutBackwards } "/w".toList [.dotnet] []
  have told : report.projects.map (·.sources.error) =
      [some "IO error for operation on /w/a: Permission denied (os error 13)".toList] := by
    decide +kernel
  have told' : report'.projects.map (·.sources.error) =
      [some "IO error for operation on /w/b: Permission denied (os error 13)".toList] := by
    decide +kernel
  refine ⟨by decide, reordered, report, report', rfl, rfl, fun same => ?_⟩
  rw [same, told'] at told
  exact absurd told (by decide)

end Scan

end SourceSurvey
